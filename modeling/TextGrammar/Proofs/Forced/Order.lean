import Mathlib.Algebra.Order.BigOperators.Group.List
import Mathlib.Algebra.Order.Group.Nat
import Mathlib.Data.List.Perm.Basic
import TextGrammar.Proofs.Agreement
import TextGrammar.Proofs.Forced.PassLimit
import TextGrammar.Proofs.Groups.Projection

/-!
# The order of definitions

The symbols of a source are resolved in the order of their definitions, each against what the ones
before it have become. What they become does not depend on that order. How many passes it takes does,
so that with a small limit a source may be refused where the same definitions in another order are
not.

* `Reordered` relates sources with the same definitions, and `Reordered.exists_parse` their tables.
* `Table.Resolvable` says that only the limit can keep symbols from being resolved, and
  `Table.resolvable_of_unfoldAll` that success in one order shows it.
* `Table.Bounds`: what a symbol takes in the table as it was read is the most that it takes in any
  order.
* `Grammar.compileWith_reordered` is the result.
-/

namespace TextGrammar

/-! ## Definitions in another order -/

/-- Sources without groups that consist of the same statements. Comments and blank statements do not
count. -/
structure Reordered (source source' : Text) : Prop where
  flat : ∀ kind, Group.Flat kind source
  flat' : ∀ kind, Group.Flat kind source'
  statements : (Table.statements source).Perm (Table.statements source')

theorem Reordered.symm {source source' : Text} (h : Reordered source source') :
    Reordered source' source :=
  ⟨h.flat', h.flat, h.statements.symm⟩

theorem Reordered.definitions {source source' : Text} (h : Reordered source source') :
    (Table.definitions source).Perm (Table.definitions source') :=
  h.statements.map Definition.ofStatement

namespace Table

/-- Tables with the same productions, whatever the order of their rows is. -/
structure SameProductions (table table' : Table) : Prop where
  get?_eq : ∀ symbol, table.get? symbol = table'.get? symbol
  length_eq : table.rows.length = table'.rows.length

section SameProductions

variable {table table' : Table}

theorem SameProductions.symm (h : table.SameProductions table') : table'.SameProductions table :=
  ⟨fun symbol => (h.get?_eq symbol).symm, h.length_eq.symm⟩

theorem SameProductions.contains_eq (h : table.SameProductions table') (symbol : Symbol) :
    table.contains symbol = table'.contains symbol :=
  congrArg Option.isSome (h.get?_eq symbol)

theorem SameProductions.alternatives_eq (h : table.SameProductions table') :
    table.alternatives = table'.alternatives := by
  funext symbol
  unfold alternatives
  rw [h.get?_eq]

theorem SameProductions.forces_eq (h : table.SameProductions table') :
    table.Forces = table'.Forces := by
  funext symbol target
  unfold Forces
  rw [forcedReferences_eq_flatMap, forcedReferences_eq_flatMap, h.alternatives_eq]

theorem SameProductions.fillings_eq (h : table.SameProductions table') :
    table.fillings = table'.fillings := by
  have hwithin : ∀ depth, table.fillingsWithin depth = table'.fillingsWithin depth := by
    intro depth
    induction depth with
    | zero => rfl
    | succ depth ih =>
      funext symbol
      rw [fillingsWithin, fillingsWithin, ih, h.alternatives_eq]
  unfold fillings
  rw [h.length_eq, hwithin]

theorem SameProductions.passesNeeded_eq (h : table.SameProductions table') :
    table.passesNeeded = table'.passesNeeded := by
  have hwithin : ∀ depth, table.passesWithin depth = table'.passesWithin depth := by
    intro depth
    induction depth with
    | zero => rfl
    | succ depth ih =>
      funext symbol
      rw [passesWithin, passesWithin, ih, h.alternatives_eq]
  unfold passesNeeded
  rw [h.length_eq, hwithin]

end SameProductions

end Table

/-- A permutation of a list that was mapped is one of the list, mapped. -/
theorem exists_perm_of_perm_map {α β : Type} {f : α → β} {mapped : List β} {list : List α}
    (h : mapped.Perm (list.map f)) : ∃ list' : List α, mapped = list'.map f ∧ list'.Perm list := by
  have hforall : List.Forall₂ (fun b a => b = f a) (list.map f) list :=
    List.forall₂_map_left_iff.2 (List.forall₂_same.2 fun _ _ => rfl)
  obtain ⟨list', hforall', hperm⟩ := List.perm_comp_forall₂ h hforall
  exact ⟨list', List.forall₂_eq_eq_eq ▸ List.forall₂_map_right_iff.2 hforall', hperm⟩

/-- Definitions that are read in one order are read in any other, as the same productions. -/
theorem Reordered.exists_parse {source source' : Text} {table : Table}
    (h : Reordered source source') (hparse : Table.parse source = .ok table) :
    ∃ table', Table.parse source' = .ok table' ∧ table.SameProductions table' := by
  obtain ⟨entries, hdefinitions, hsound, hrows⟩ := Table.exists_entries_of_parse hparse
  have hsymbols : table.symbols = entries.map Prod.fst := by
    rw [Table.symbols, hrows, List.map_map]
    rfl
  have hperm := h.symm.definitions
  rw [hdefinitions] at hperm
  obtain ⟨entries', hdefinitions', hentries⟩ := exists_perm_of_perm_map hperm
  have hwell := (Table.Reachable.read hparse).wellFormed
  have hdistinct := hwell.distinct
  have hstart := hwell.start
  rw [hsymbols] at hdistinct hstart
  obtain ⟨table', hparse', hrows'⟩ := Table.exists_parse_of_entries hdefinitions'
    (fun entry hentry => hsound entry (hentries.subset hentry))
    ((hentries.map Prod.fst).nodup_iff.2 hdistinct) ((hentries.map Prod.fst).mem_iff.2 hstart)
  refine ⟨table', hparse', ?_, ?_⟩
  · intro symbol
    refine Option.ext fun production => ?_
    rw [Table.get?_eq_some_iff_of_parse hparse, Table.get?_eq_some_iff_of_parse hparse']
    simp only [h.definitions.mem_iff]
  · rw [hrows, hrows', List.length_map, List.length_map, hentries.length_eq]

/-! ## Resolving in any order -/

namespace Table

/-- A table where nothing but the limit can keep symbols from being resolved. -/
structure Resolvable (table : Table) : Prop where
  wellFormed : table.WellFormed
  acyclic : table.Acyclic
  /-- All that is forced is defined. -/
  defined : ∀ symbol target, table.Forces symbol target → table.contains target = true

variable {table next : Table} {symbol target : Symbol} {limit : Nat} {order : List Symbol}

theorem Resolvable.pass (h : table.Resolvable) (hpass : Pass symbol table next) :
    next.Resolvable where
  wellFormed := h.wellFormed.pass hpass
  acyclic := h.acyclic.pass hpass
  defined := by
    intro source target hforces
    obtain ⟨middle, -, hlast⟩ := Relation.TransGen.tail'_iff.1 (hpass.transGen_of_forces hforces)
    rw [contains_congr hpass.symbols_eq]
    exact h.defined middle target hlast

theorem Resolvable.of_steps (h : table.Resolvable)
    (hsteps : Relation.ReflTransGen Step table next) : next.Resolvable :=
  keeps_of_steps Resolvable.pass h hsteps

theorem Resolvable.clear (h : table.Resolvable) : Resolvable { table with forced := [] } :=
  ⟨h.wellFormed.clear, h.acyclic, h.defined⟩

/-- A symbol is resolved, or it takes more passes than allowed. -/
theorem Resolvable.unfold_cases (h : table.Resolvable) (symbol : Symbol) (limit : Nat) :
    (table.unfold symbol limit).1 = .ok () ∨
      (table.unfold symbol limit).1 = .error (.unfoldCycle symbol limit []) ∧
        limit < table.passesNeeded symbol := by
  have hfree : ∀ other, ¬table.ReachesCycle other := fun _ => h.acyclic.not_reachesCycle
  rcases Table.unfold_cases table symbol limit with ⟨path, hcycle, -⟩ | ⟨-, hrepeats⟩
  · exact absurd hcycle.reachesCycle (hfree symbol)
  · rcases hrepeats.outcome (Nat.zero_le limit) h.wellFormed (hfree symbol)
        (fun target _ => passesNeeded_eq (hfree target)) with
      ⟨hok, -, -⟩ | ⟨herror, hlt⟩ | ⟨target, -, hpath, hundefined⟩
    · exact Or.inl hok
    · rw [Nat.zero_add, ← passesNeeded_eq (hfree symbol)] at hlt
      exact Or.inr ⟨herror, hlt⟩
    · obtain ⟨middle, -, hlast⟩ := Relation.TransGen.tail'_iff.1 hpath
      rw [h.defined middle target hlast] at hundefined
      cases hundefined

/-- Whatever the order is, resolving fails at the limit only. -/
theorem Resolvable.exists_of_unfoldEach_eq_error (h : table.Resolvable) {error : GrammarError}
    (herror : (unfoldEach limit order table).1 = .error error) :
    ∃ symbol ∈ order, error = .unfoldCycle symbol limit [] := by
  induction order generalizing table with
  | nil => cases herror
  | cons symbol rest ih =>
    have hcases := h.unfold_cases symbol limit
    have hnext := h.of_steps (steps_unfold table symbol limit)
    unfold unfoldEach at herror
    split at herror
    · rename_i error' next hunfold
      rw [hunfold] at hcases
      cases herror
      rcases hcases with hok | ⟨hspent, -⟩
      · cases hok
      · exact ⟨symbol, List.mem_cons_self, Except.error.inj hspent⟩
    · rename_i next hunfold
      rw [hunfold] at hnext
      obtain ⟨symbol', hmem, heq⟩ := ih hnext herror
      exact ⟨symbol', List.mem_cons_of_mem symbol hmem, heq⟩

/-! ### What success shows -/

/-- A symbol that is resolved forces nothing that is not defined. -/
theorem WellFormed.contains_of_unfold (h : table.WellFormed)
    (hunfold : table.unfold symbol limit = (.ok (), next)) (hforces : table.Forces symbol target) :
    table.contains target = true := by
  have hfree := not_reachesCycle_of_unfold hunfold
  have hneeded : ∀ other, Relation.TransGen table.Forces symbol other →
      table.passesNeeded other = mostPasses table.passesNeeded (table.alternatives other) := by
    intro other hpath
    apply passesNeeded_eq
    rintro ⟨last, hrest, hcycle⟩
    exact hfree ⟨last, hpath.to_reflTransGen.trans hrest, hcycle⟩
  rcases Table.unfold_cases table symbol limit with ⟨path, hcycle, -⟩ | ⟨-, hrepeats⟩
  · exact absurd hcycle.reachesCycle hfree
  · rw [hunfold] at hrepeats
    rcases hrepeats.outcome (Nat.zero_le limit) h hfree hneeded with
      ⟨-, -, hdefined⟩ | ⟨herror, -⟩ | ⟨target', herror, -⟩
    · exact hdefined target (.single hforces)
    · cases herror
    · cases herror

/-- A symbol has its alternatives until it is its turn. -/
theorem WellFormed.contains_of_unfoldEach (h : table.WellFormed) (hdistinct : order.Nodup)
    (hunfold : unfoldEach limit order table = (.ok (), next)) (hmem : symbol ∈ order)
    (hforces : table.Forces symbol target) : table.contains target = true := by
  induction order generalizing table with
  | nil => cases hmem
  | cons first rest ih =>
    obtain ⟨hfirst, hrest⟩ := List.nodup_cons.1 hdistinct
    unfold unfoldEach at hunfold
    split at hunfold
    · cases hunfold
    · rename_i middle hunfold'
      rcases List.mem_cons.1 hmem with rfl | hlater
      · exact h.contains_of_unfold hunfold' hforces
      · have hpasses := passes_unfold table first limit
        have hsteps := steps_unfold table first limit
        rw [hunfold'] at hpasses hsteps
        have hne : symbol ≠ first := by
          rintro rfl
          exact hfirst hlater
        have hforces' : middle.Forces symbol target := by
          rw [forces_iff, alternatives_eq_of_passes hpasses hne]
          exact forces_iff.1 hforces
        have hmiddle := ih (keeps_of_steps WellFormed.pass h hsteps) hrest hunfold hlater hforces'
        rwa [contains_congr (symbols_eq_of_steps hsteps)] at hmiddle

/-- Success in the order of the definitions shows that no order meets an obstacle. -/
theorem resolvable_of_unfoldAll {source : Text} (hparse : Table.parse source = .ok table)
    (hunfold : table.unfoldAll limit = (.ok (), next)) : table.Resolvable := by
  have hread := asRead_of_parse hparse
  have hwell := (Reachable.read hparse).wellFormed
  refine ⟨hwell, ?_, ?_⟩
  · intro symbol hcycle
    have hstays := transGen_of_unfoldEach hunfold hcycle
    obtain ⟨target, hforces, -⟩ := Relation.TransGen.head'_iff.1 hstays
    exact (hread.resolved_of_unfoldEach (fun _ hmem => hmem) hunfold symbol).not_forces hforces
  · intro symbol target hforces
    have hdistinct : table.forced.Nodup := by
      rw [hread.forced_eq]
      exact (List.filter_sublist.map Prod.fst).nodup hread.distinct
    have hmem : symbol ∈ table.forced := by
      by_contra hnot
      exact (hread.resolved_of_not_mem hnot).not_forces hforces
    have hcontains : Table.contains { table with forced := [] } target = true :=
      WellFormed.contains_of_unfoldEach hwell.clear hdistinct hunfold hmem hforces
    exact hcontains

/-! ### How much an order may take -/

variable {needed : Symbol → Nat}

theorem mostPasses_mono {needed' : Symbol → Nat} (h : ∀ target, needed target ≤ needed' target)
    (alternatives : List Alternative) :
    mostPasses needed alternatives ≤ mostPasses needed' alternatives := by
  rw [mostPasses_le_iff]
  intro a ha
  have hpasses : a.passes needed ≤ a.passes needed' :=
    List.sum_le_sum fun target _ => Nat.add_le_add_left (h target) 1
  exact hpasses.trans (Alternative.passes_le_mostPasses ha)

/-- No symbol takes more passes than a given number. Other than an equation, this stays true when
another symbol is resolved. -/
def Bounds (needed : Symbol → Nat) (table : Table) : Prop :=
  ∀ symbol, mostPasses needed (table.alternatives symbol) ≤ needed symbol

/-- What stands in place of an alternative after a pass takes no more than the alternative. -/
theorem Bounds.mostPasses_resolved_le (h : Bounds needed table) (a : Alternative) :
    mostPasses needed (table.resolved a) ≤ a.passes needed := by
  cases hfirst : a.firstForced? with
  | none =>
    rw [resolved_of_firstForced?_eq_none hfirst, mostPasses_le_iff, List.forall_mem_singleton]
  | some found =>
    obtain ⟨index, reference⟩ := found
    obtain ⟨others, ha, hsplice⟩ := Alternative.exists_others_of_firstForced? hfirst
    rw [resolved_of_firstForced? hfirst, mostPasses_le_iff, List.forall_mem_map]
    intro choice hchoice
    have hchoice : choice.passes needed ≤ needed reference :=
      (Alternative.passes_le_mostPasses hchoice).trans (h reference)
    rw [Alternative.passes, Alternative.passes, hsplice, ha, List.map_append, List.sum_append,
      List.map_cons, List.sum_cons]
    rw [Alternative.passes] at hchoice
    omega

theorem Bounds.pass (h : Bounds needed table) (hpass : Pass symbol table next) :
    Bounds needed next := by
  intro symbol'
  rw [hpass.alternatives_eq]
  by_cases hsymbol : symbol' = symbol
  · subst hsymbol
    rw [if_pos rfl, mostPasses_le_iff, List.forall_mem_flatMap]
    intro a ha
    rw [← mostPasses_le_iff]
    exact (h.mostPasses_resolved_le a).trans
      ((Alternative.passes_le_mostPasses ha).trans (h symbol'))
  · rw [if_neg hsymbol]
    exact h symbol'

theorem Bounds.passesNeeded_le (h : Bounds needed table) (symbol : Symbol) :
    table.passesNeeded symbol ≤ needed symbol := by
  have hwithin : ∀ depth symbol, table.passesWithin depth symbol ≤ needed symbol := by
    intro depth
    induction depth with
    | zero => exact fun _ => Nat.zero_le _
    | succ depth ih => exact fun symbol => (mostPasses_mono ih _).trans (h symbol)
  exact hwithin table.rows.length symbol

/-- A table bounds what its symbols take in any order. -/
theorem Resolvable.bounds (h : table.Resolvable) : Bounds table.passesNeeded table :=
  fun _ => (passesNeeded_eq h.acyclic.not_reachesCycle).ge

/-- Whatever the order is, resolving succeeds if the limit is not below what the symbols take. -/
theorem Resolvable.unfoldEach_eq_ok (h : table.Resolvable) (hbounds : Bounds needed table)
    (hlimit : ∀ symbol, needed symbol ≤ limit) : (unfoldEach limit order table).1 = .ok () := by
  induction order generalizing table with
  | nil => rfl
  | cons symbol rest ih =>
    have hsteps := steps_unfold table symbol limit
    have hok : (table.unfold symbol limit).1 = .ok () := by
      rcases h.unfold_cases symbol limit with hok | ⟨-, hlt⟩
      · exact hok
      · exact absurd ((hbounds.passesNeeded_le symbol).trans (hlimit symbol)) (Nat.not_le.2 hlt)
    unfold unfoldEach
    split
    · rename_i error next hunfold
      rw [hunfold] at hok
      cases hok
    · rename_i next hunfold
      rw [hunfold] at hsteps
      exact ih (h.of_steps hsteps) (keeps_of_steps Bounds.pass hbounds hsteps)

/-! ### Another order -/

variable {table' : Table}

theorem SameProductions.resolvable (h : table.SameProductions table') (hwell : table'.WellFormed)
    (hresolvable : table.Resolvable) : table'.Resolvable := by
  refine ⟨hwell, ?_, ?_⟩
  · unfold Acyclic
    rw [← h.forces_eq]
    exact hresolvable.acyclic
  · intro symbol target
    rw [← h.forces_eq, ← h.contains_eq]
    exact hresolvable.defined symbol target

theorem lookup_map_rows (rows : List (Symbol × Production)) (f : Symbol → Production)
    (symbol : Symbol) :
    (rows.map fun row => (row.1, f row.1)).lookup symbol =
      (rows.lookup symbol).map fun _ => f symbol := by
  induction rows with
  | nil => rfl
  | cons row rest ih =>
    obtain ⟨key, production⟩ := row
    rw [List.map_cons, List.lookup_cons, List.lookup_cons]
    by_cases hkey : symbol = key
    · subst hkey
      rw [beq_self_eq_true]
      rfl
    · rw [beq_eq_false_iff_ne.2 hkey]
      exact ih

/-- What a symbol becomes depends on what the symbols are defined as, and not on the order. -/
theorem AsRead.get?_of_unfoldAll (h : table.AsRead) (hacyclic : table.Acyclic)
    (hunfold : table.unfoldAll limit = (.ok (), next)) (symbol : Symbol) :
    next.get? symbol = (table.get? symbol).map fun _ => ⟨table.fillings symbol⟩ := by
  rw [h.eq_of_unfoldEach hacyclic (.refl _) hunfold]
  exact lookup_map_rows table.rows (fun symbol => ⟨table.fillings symbol⟩) symbol

end Table

/-! ## The result -/

namespace Grammar

open Table

variable {source source' : Text} {table : Table} {limits : Limits} {grammar : Grammar}

/-- Without groups, compiling is reading and resolving. -/
theorem compileWith_of_flat (hflat : ∀ kind, Group.Flat kind source)
    (hparse : Table.parse source = .ok table) (limits : Limits) :
    compileWith limits source =
      (table.unfoldAll limits.maxUnfoldPasses).1.map fun _ =>
        ⟨(table.unfoldAll limits.maxUnfoldPasses).2, Symbol.start, limits⟩ := by
  rw [← Group.desugar_eq_self_iff.2 hflat] at hparse
  exact compileWith_of_parse hparse

/-- A source without groups that is accepted has a table, and all of it is resolved. -/
theorem exists_of_compileWith_flat (hflat : ∀ kind, Group.Flat kind source)
    (h : compileWith limits source = .ok grammar) :
    ∃ table, Table.parse source = .ok table ∧
      table.unfoldAll limits.maxUnfoldPasses = (.ok (), grammar.table) := by
  have htable := exists_unfoldAll_of_compileWith h
  rwa [Group.desugar_eq_self_iff.2 hflat] at htable

/-- Where the limit is not below what the symbols take, what is accepted depends on the
productions, and not on the order. -/
theorem exists_compileWith_iff (hflat : ∀ kind, Group.Flat kind source)
    (hparse : Table.parse source = .ok table)
    (hlimit : ∀ symbol, table.passesNeeded symbol ≤ limits.maxUnfoldPasses) :
    (∃ grammar, compileWith limits source = .ok grammar) ↔ table.Resolvable := by
  constructor
  · rintro ⟨grammar, hcompile⟩
    obtain ⟨table', hparse', hunfold⟩ := exists_of_compileWith_flat hflat hcompile
    cases hparse.symm.trans hparse'
    exact resolvable_of_unfoldAll hparse hunfold
  · intro hresolvable
    have hbounds : Bounds table.passesNeeded { table with forced := [] } := hresolvable.bounds
    have hok : (table.unfoldAll limits.maxUnfoldPasses).1 = .ok () :=
      hresolvable.clear.unfoldEach_eq_ok hbounds hlimit
    exact ⟨_, by rw [compileWith_of_flat hflat hparse, hok]; rfl⟩

/-- Compiling depends on the order of definitions in one way only. What is accepted in two orders
has the same alternatives, in the same order, for every symbol. What is accepted in one order is
refused in another only because all passes are made for some symbol. So if a limit is not below what
each symbol takes in the table as it is read, one pass for each forced reference of an alternative
and as many as its targets take, both orders are accepted or both are refused. -/
theorem compileWith_reordered (h : Reordered source source') (limits : Limits) :
    (∀ grammar grammar', compileWith limits source = .ok grammar →
      compileWith limits source' = .ok grammar' →
        ∀ symbol, grammar.table.get? symbol = grammar'.table.get? symbol) ∧
    (∀ grammar error, compileWith limits source = .ok grammar →
      compileWith limits source' = .error error →
        ∃ symbol, error = .unfoldCycle symbol limits.maxUnfoldPasses []) ∧
    ((∃ table, Table.parse source = .ok table) ↔ ∃ table', Table.parse source' = .ok table') ∧
    ∀ table, Table.parse source = .ok table →
      (∀ symbol, table.passesNeeded symbol ≤ limits.maxUnfoldPasses) →
        ((∃ grammar, compileWith limits source = .ok grammar) ↔
          ∃ grammar', compileWith limits source' = .ok grammar') := by
  have hwell : ∀ {source table}, Table.parse source = .ok table → table.WellFormed :=
    fun hparse => (Reachable.read hparse).wellFormed
  refine ⟨?_, ?_, ⟨?_, ?_⟩, ?_⟩
  · intro grammar grammar' hcompile hcompile' symbol
    obtain ⟨table, hparse, hunfold⟩ := exists_of_compileWith_flat h.flat hcompile
    obtain ⟨table', hparse', hunfold'⟩ := exists_of_compileWith_flat h.flat' hcompile'
    obtain ⟨_, hread, hsame⟩ := h.exists_parse hparse
    cases hread.symm.trans hparse'
    have hacyclic := (resolvable_of_unfoldAll hparse hunfold).acyclic
    have hacyclic' := (resolvable_of_unfoldAll hparse' hunfold').acyclic
    rw [(asRead_of_parse hparse).get?_of_unfoldAll hacyclic hunfold,
      (asRead_of_parse hparse').get?_of_unfoldAll hacyclic' hunfold', hsame.get?_eq,
      hsame.fillings_eq]
  · intro grammar error hcompile hcompile'
    obtain ⟨table, hparse, hunfold⟩ := exists_of_compileWith_flat h.flat hcompile
    obtain ⟨table', hparse', hsame⟩ := h.exists_parse hparse
    have hresolvable := hsame.resolvable (hwell hparse') (resolvable_of_unfoldAll hparse hunfold)
    rw [compileWith_of_flat h.flat' hparse'] at hcompile'
    cases herror : (table'.unfoldAll limits.maxUnfoldPasses).1 with
    | ok =>
      rw [herror] at hcompile'
      cases hcompile'
    | error error' =>
      rw [herror] at hcompile'
      cases hcompile'
      obtain ⟨symbol, -, heq⟩ := hresolvable.clear.exists_of_unfoldEach_eq_error herror
      exact ⟨symbol, heq⟩
  · rintro ⟨table, hparse⟩
    obtain ⟨table', hparse', -⟩ := h.exists_parse hparse
    exact ⟨table', hparse'⟩
  · rintro ⟨table', hparse'⟩
    obtain ⟨table, hparse, -⟩ := h.symm.exists_parse hparse'
    exact ⟨table, hparse⟩
  · intro table hparse hlimit
    obtain ⟨table', hparse', hsame⟩ := h.exists_parse hparse
    have hlimit' : ∀ symbol, table'.passesNeeded symbol ≤ limits.maxUnfoldPasses := by
      rwa [← hsame.passesNeeded_eq]
    rw [exists_compileWith_iff h.flat hparse hlimit, exists_compileWith_iff h.flat' hparse' hlimit']
    exact ⟨hsame.resolvable (hwell hparse'), hsame.symm.resolvable (hwell hparse)⟩

/-- Definitions where each symbol is resolved before the target of its forced reference. -/
def targetsLast : Text :=
  "$s=>$a;$a=>$b;$b=x".toList

/-- The same definitions where `$a` is resolved before `$s`. -/
def targetsFirst : Text :=
  "$a=>$b;$s=>$a;$b=x".toList

/-- The table of `targetsFirst` before anything is resolved. -/
def targets : Table :=
  let a := Symbol.ofIdentifier ['a']
  let b := Symbol.ofIdentifier ['b']
  { rows := [(a, ⟨[⟨[.forced b]⟩]⟩), (.start, ⟨[⟨[.forced a]⟩]⟩), (b, ⟨[⟨[.literal ['x']]⟩]⟩)]
    forced := [a, .start] }

/-- The table of `targetsLast` before anything is resolved. -/
def targetsInOrder : Table :=
  let a := Symbol.ofIdentifier ['a']
  let b := Symbol.ofIdentifier ['b']
  { rows := [(.start, ⟨[⟨[.forced a]⟩]⟩), (a, ⟨[⟨[.forced b]⟩]⟩), (b, ⟨[⟨[.literal ['x']]⟩]⟩)]
    forced := [.start, a] }

theorem acyclic_targets : targets.Acyclic ∧ targetsInOrder.Acyclic := by
  -- Forced references lead from `$s` to `$a` and from there to `$b`.
  let rank (symbol : Symbol) : Nat :=
    if symbol = .start then 2 else if symbol = .ofIdentifier ['a'] then 1 else 0
  constructor
  · exact acyclic_of_rank rank (by decide)
  · exact acyclic_of_rank rank (by decide)

theorem parse_targets :
    Table.parse targetsFirst = .ok targets ∧ Table.parse targetsLast = .ok targetsInOrder := by
  constructor
  · decide +kernel
  · decide +kernel

/-- The grammar of `targetsFirst`. -/
def targetsGrammar (passes : Nat) : Grammar :=
  let x : Production := ⟨[⟨[.literal ['x']]⟩]⟩
  ⟨⟨[(.ofIdentifier ['a'], x), (.start, x), (.ofIdentifier ['b'], x)], []⟩, .start, ⟨256, passes⟩⟩

theorem reordered_targets : Reordered targetsFirst targetsLast := by
  have hfirst : statements targetsFirst =
      ["$a=>$b".toList, "$s=>$a".toList, "$b=x".toList] := by decide +kernel
  have hlast : statements targetsLast =
      ["$s=>$a".toList, "$a=>$b".toList, "$b=x".toList] := by decide +kernel
  refine ⟨?_, ?_, ?_⟩
  · intro kind
    cases kind <;> decide
  · intro kind
    cases kind <;> decide
  · rw [hfirst, hlast]
    exact .swap _ _ _

theorem compileWith_targets :
    compileWith ⟨256, 1⟩ targetsFirst = .ok (targetsGrammar 1) ∧
      compileWith ⟨256, 2⟩ targetsFirst = .ok (targetsGrammar 2) ∧
      compileWith ⟨256, 1⟩ targetsLast = .error (.unfoldCycle .start 1 []) := by
  obtain ⟨hfirst, hlast⟩ := parse_targets
  refine ⟨?_, ?_, ?_⟩
  · rw [compileWith_of_flat reordered_targets.flat hfirst, acyclic_targets.1.unfoldAll_eq]
    decide +kernel
  · rw [compileWith_of_flat reordered_targets.flat hfirst, acyclic_targets.1.unfoldAll_eq]
    decide +kernel
  · rw [compileWith_of_flat reordered_targets.flat' hlast, acyclic_targets.2.unfoldAll_eq]
    decide +kernel

/-- Under a limit of one pass, one order is accepted and the other is not. -/
theorem acceptance_depends_on_order :
    ¬∀ (source source' : Text) (limits : Limits), Reordered source source' →
      ((∃ grammar, compileWith limits source = .ok grammar) ↔
        ∃ grammar', compileWith limits source' = .ok grammar') ∧
      ∀ grammar grammar', compileWith limits source = .ok grammar →
        compileWith limits source' = .ok grammar' →
          ∀ symbol, grammar.table.get? symbol = grammar'.table.get? symbol := by
  intro hclaim
  obtain ⟨haccepted, -, hrefused⟩ := compileWith_targets
  obtain ⟨grammar', haccepted'⟩ :=
    (hclaim targetsFirst targetsLast ⟨256, 1⟩ reordered_targets).1.1 ⟨_, haccepted⟩
  cases hrefused.symm.trans haccepted'

theorem passesNeeded_targets (symbol : Symbol) : targets.passesNeeded symbol ≤ 2 := by
  by_cases hmem : symbol ∈ targets.symbols
  · have hall : ∀ symbol ∈ targets.symbols, targets.passesNeeded symbol ≤ 2 := by decide
    exact hall symbol hmem
  · rw [passesNeeded, passesWithin_of_not_mem hmem]
    exact Nat.zero_le 2

theorem targets_compileWith_reordered :
    Reordered targetsFirst targetsLast ∧
      compileWith ⟨256, 1⟩ targetsFirst = .ok (targetsGrammar 1) ∧
      (∃ symbol, compileWith ⟨256, 1⟩ targetsLast = .error (.unfoldCycle symbol 1 [])) ∧
      compileWith ⟨256, 2⟩ targetsFirst = .ok (targetsGrammar 2) ∧
      ∃ grammar, compileWith ⟨256, 2⟩ targetsLast = .ok grammar ∧
        ∀ symbol, (targetsGrammar 2).table.get? symbol = grammar.table.get? symbol := by
  obtain ⟨haccepted, haccepted', hrefused⟩ := compileWith_targets
  obtain ⟨-, hlimit, -, -⟩ := compileWith_reordered reordered_targets ⟨256, 1⟩
  obtain ⟨hsame, -, -, hboth⟩ := compileWith_reordered reordered_targets ⟨256, 2⟩
  obtain ⟨symbol, herror⟩ := hlimit _ _ haccepted hrefused
  obtain ⟨grammar, hgrammar⟩ := (hboth targets parse_targets.1 passesNeeded_targets).1 ⟨_, haccepted'⟩
  exact ⟨reordered_targets, haccepted, ⟨symbol, hrefused.trans (congrArg Except.error herror)⟩,
    haccepted', grammar, hgrammar, hsame _ _ haccepted' hgrammar⟩

end Grammar

end TextGrammar
