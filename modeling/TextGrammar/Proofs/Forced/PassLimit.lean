import Mathlib.Algebra.GroupWithZero.Nat
import Mathlib.Data.List.MinMax
import Mathlib.Order.Nat
import TextGrammar.Proofs.Forced.Cycles
import TextGrammar.Proofs.Reachable

/-!
# How many passes resolving takes

A pass resolves one forced reference of every alternative, and brings in those of its target. So an
alternative takes one pass for each of its references and as many as the targets take, and a symbol
as many as the alternative of it that takes most.

* `Table.passesNeeded` is this number, and `Table.passesNeeded_eq` its recursive equation.
* `Table.Pass.mostPasses_le_iff`: a pass over a symbol makes the number go down by one, if it is not
  zero yet.
* `Table.Pass.transGen_or_contains`: a pass does not lose a reference to a symbol that is not
  defined.
* `Table.Repeats.outcome` puts the two together along the loop.
* `Table.pass_limit_exact` is the result.
-/

namespace TextGrammar

/-! ## Counting passes -/

/-- The passes that an alternative takes, if every symbol takes `needed`: one for each forced
reference, and then those of its target. -/
def Alternative.passes (needed : Symbol → Nat) (a : Alternative) : Nat :=
  (a.forcedReferences.map fun target => 1 + needed target).sum

/-- The passes that several alternatives take together. Each pass is over all of them. -/
def mostPasses (needed : Symbol → Nat) (alternatives : List Alternative) : Nat :=
  (alternatives.map (Alternative.passes needed)).foldr max 0

section Counting

variable {needed needed' : Symbol → Nat} {a : Alternative} {alternatives : List Alternative}
  {n : Nat}

theorem mostPasses_le_iff :
    mostPasses needed alternatives ≤ n ↔ ∀ a ∈ alternatives, a.passes needed ≤ n := by
  constructor
  · intro hle a ha
    exact (List.le_max_of_le (List.mem_map_of_mem ha) (Nat.le_refl _)).trans hle
  · intro hall
    apply List.max_le_of_forall_le
    rwa [List.forall_mem_map]

theorem Alternative.passes_le_mostPasses (ha : a ∈ alternatives) :
    a.passes needed ≤ mostPasses needed alternatives :=
  mostPasses_le_iff.1 (Nat.le_refl _) a ha

theorem mostPasses_add_le_iff (h : alternatives ≠ []) (others : Nat) :
    mostPasses needed alternatives + others ≤ n ↔
      ∀ a ∈ alternatives, a.passes needed + others ≤ n := by
  obtain ⟨first, rest, rfl⟩ := List.exists_cons_of_ne_nil h
  constructor
  · intro hle a ha
    have hmost : a.passes needed ≤ mostPasses needed (first :: rest) :=
      Alternative.passes_le_mostPasses ha
    omega
  · intro hall
    have hfirst := hall first List.mem_cons_self
    have hmost : mostPasses needed (first :: rest) ≤ n - others := by
      rw [mostPasses_le_iff]
      intro a ha
      have ha := hall a ha
      omega
    omega

theorem mostPasses_congr
    (h : ∀ a ∈ alternatives, ∀ target ∈ a.forcedReferences, needed target = needed' target) :
    mostPasses needed alternatives = mostPasses needed' alternatives := by
  have hpasses : ∀ a ∈ alternatives, a.passes needed = a.passes needed' := by
    intro a ha
    unfold Alternative.passes
    rw [List.map_congr_left fun target htarget => by rw [h a ha target htarget]]
  unfold mostPasses
  rw [List.map_congr_left hpasses]

namespace Alternative

theorem passes_eq_zero_iff : a.passes needed = 0 ↔ a.hasForced = false := by
  have hpasses : a.passes needed = 0 ↔ a.forcedReferences = [] := by
    unfold passes
    cases a.forcedReferences with
    | nil => simp
    | cons target rest => simp
  rw [hpasses, ← Bool.not_eq_true, hasForced_iff, forcedReferences, List.filterMap_eq_nil_iff]
  constructor
  · rintro hnone ⟨target, hmem⟩
    cases hnone _ hmem
  · intro hnone segment hsegment
    cases segment with
    | literal text => rfl
    | ref symbol => rfl
    | forced symbol => exact absurd ⟨symbol, hsegment⟩ hnone

/-- Splicing puts the forced references of the replacement in place of the leftmost one. -/
theorem exists_others_of_firstForced? {index : Nat} {reference : Symbol}
    (h : a.firstForced? = some (index, reference)) :
    ∃ others, a.forcedReferences = reference :: others ∧
      ∀ choice, (a.splice index choice).forcedReferences = choice.forcedReferences ++ others := by
  obtain ⟨before, after, rfl, rfl, hfree⟩ := exists_of_firstForced? h
  have hbefore : before.filterMap Segment.forced? = [] :=
    forcedReferences_of_firstForced?_eq_none (show firstForced? ⟨before⟩ = none from hfree)
  refine ⟨after.filterMap Segment.forced?, ?_, ?_⟩
  · rw [forcedReferences, List.filterMap_append, hbefore]
    rfl
  · intro choice
    rw [splice_append, forcedReferences, filterMap_ofSegments fun _ => rfl, List.filterMap_append,
      List.filterMap_append, hbefore]
    rfl

end Alternative

end Counting

namespace Table

variable {table next : Table} {symbol target : Symbol} {needed : Symbol → Nat}

/-! ## What a symbol takes -/

/-- The passes that a symbol takes as far as it takes no more than `depth` symbols that force one
another. -/
def passesWithin (table : Table) : Nat → Symbol → Nat
  | 0, _ => 0
  | depth + 1, symbol => mostPasses (table.passesWithin depth) (table.alternatives symbol)

/-- The passes that a symbol takes. No chain of forced references is longer than the table. -/
def passesNeeded (table : Table) : Symbol → Nat :=
  table.passesWithin table.rows.length

theorem passesWithin_of_not_mem (h : symbol ∉ table.symbols) (depth : Nat) :
    table.passesWithin depth symbol = 0 := by
  cases depth with
  | zero => rfl
  | succ depth =>
    rw [passesWithin, alternatives_of_not_mem h]
    rfl

theorem passesWithin_congr {depth depth' : Nat}
    (h : ∀ target, table.Forces symbol target →
      table.passesWithin depth target = table.passesWithin depth' target) :
    table.passesWithin (depth + 1) symbol = table.passesWithin (depth' + 1) symbol := by
  apply mostPasses_congr
  intro a ha target htarget
  exact h target (forces_iff.2 ⟨a, ha, htarget⟩)

/-- Where forced references lead to no cycle, a symbol takes what its alternatives take. -/
theorem passesNeeded_eq (h : ¬table.ReachesCycle symbol) :
    table.passesNeeded symbol = mostPasses table.passesNeeded (table.alternatives symbol) := by
  by_contra hne
  have hne' : table.passesWithin (table.rows.length + 1) symbol ≠
      table.passesWithin table.rows.length symbol := Ne.symm hne
  obtain ⟨rest, hlength, hchain, hsymbols⟩ := exists_chain_of_ne table.passesWithin
    (fun _ hnot _ _ => by rw [passesWithin_of_not_mem hnot, passesWithin_of_not_mem hnot])
    (fun _ _ _ => passesWithin_congr) hne'
  have hle := length_le_of_not_reachesCycle h hchain hsymbols
  rw [List.length_cons] at hle
  omega

theorem resolved_iff_mostPasses (needed : Symbol → Nat) :
    table.Resolved symbol ↔ mostPasses needed (table.alternatives symbol) = 0 := by
  rw [← Nat.le_zero, mostPasses_le_iff]
  simp only [Nat.le_zero, Alternative.passes_eq_zero_iff]
  rfl

/-! ## One pass -/

/-- The number of what stands in place of an alternative after a pass is one less than that of the
alternative, if the alternative holds a forced reference at all. -/
theorem mostPasses_resolved_le_iff {a : Alternative} {n : Nat}
    (h : ∀ index reference, a.firstForced? = some (index, reference) →
      table.alternatives reference ≠ [] ∧
        needed reference = mostPasses needed (table.alternatives reference)) :
    mostPasses needed (table.resolved a) ≤ n ↔ a.passes needed ≤ n + 1 := by
  cases hfirst : a.firstForced? with
  | none =>
    have hzero : a.passes needed = 0 := by
      rw [Alternative.passes_eq_zero_iff, Alternative.hasForced, hfirst, Option.isSome_none]
    rw [resolved_of_firstForced?_eq_none hfirst, mostPasses_le_iff, List.forall_mem_singleton]
    omega
  | some found =>
    obtain ⟨index, reference⟩ := found
    obtain ⟨hinhabited, hreference⟩ := h index reference hfirst
    obtain ⟨others, ha, hsplice⟩ := Alternative.exists_others_of_firstForced? hfirst
    have hpasses : a.passes needed = 1 + needed reference +
        (others.map fun target => 1 + needed target).sum := by
      rw [Alternative.passes, ha, List.map_cons, List.sum_cons]
    have hspliced : ∀ choice, (a.splice index choice).passes needed = choice.passes needed +
        (others.map fun target => 1 + needed target).sum := by
      intro choice
      rw [Alternative.passes, hsplice, List.map_append, List.sum_append]
      rfl
    rw [resolved_of_firstForced? hfirst, mostPasses_le_iff, List.forall_mem_map]
    simp only [hspliced]
    rw [← mostPasses_add_le_iff hinhabited, hpasses, hreference]
    omega

theorem mostPasses_flatMap_le_iff {alternatives : List Alternative}
    {f : Alternative → List Alternative} {n m : Nat}
    (h : ∀ a ∈ alternatives, mostPasses needed (f a) ≤ n ↔ a.passes needed ≤ m) :
    mostPasses needed (alternatives.flatMap f) ≤ n ↔ mostPasses needed alternatives ≤ m := by
  simp only [mostPasses_le_iff, List.forall_mem_flatMap] at h ⊢
  exact forall₂_congr h

/-- A pass over a symbol makes the number of passes that it takes go down by one. -/
theorem Pass.mostPasses_le_iff (h : Pass symbol table next) (hformed : table.WellFormed)
    (hneeded : ∀ target, table.Forces symbol target →
      needed target = mostPasses needed (table.alternatives target)) (n : Nat) :
    mostPasses needed (next.alternatives symbol) ≤ n ↔
      mostPasses needed (table.alternatives symbol) ≤ n + 1 := by
  rw [h.alternatives_eq, if_pos rfl]
  apply mostPasses_flatMap_le_iff
  intro a ha
  apply mostPasses_resolved_le_iff
  intro index reference hfirst
  have hreference := contains_iff_mem_symbols.1 (h.contains_of_firstForced? ha hfirst)
  obtain ⟨others, hothers, -⟩ := Alternative.exists_others_of_firstForced? hfirst
  refine ⟨hformed.inhabited reference hreference, hneeded reference (forces_iff.2 ⟨a, ha, ?_⟩)⟩
  rw [hothers]
  exact List.mem_cons_self

/-- After a pass a symbol still forces what it did, or it forces all that this target does. -/
theorem Pass.forces_cases (h : Pass symbol table next) (hformed : table.WellFormed)
    (hforces : table.Forces symbol target) :
    next.Forces symbol target ∨
      table.contains target = true ∧
        ∀ further, table.Forces target further → next.Forces symbol further := by
  obtain ⟨a, ha, htarget⟩ := forces_iff.1 hforces
  have hnext : ∀ {b further}, b ∈ table.resolved a → further ∈ b.forcedReferences →
      next.Forces symbol further := by
    intro b further hb hfurther
    refine forces_iff.2 ⟨b, ?_, hfurther⟩
    rw [h.alternatives_eq, if_pos rfl]
    exact List.mem_flatMap.2 ⟨a, ha, hb⟩
  cases hfirst : a.firstForced? with
  | none =>
    left
    apply hnext _ htarget
    rw [resolved_of_firstForced?_eq_none hfirst]
    exact List.mem_singleton_self a
  | some found =>
    obtain ⟨index, reference⟩ := found
    obtain ⟨others, hothers, hsplice⟩ := Alternative.exists_others_of_firstForced? hfirst
    have hcontains := h.contains_of_firstForced? ha hfirst
    have hspliced : ∀ choice ∈ table.alternatives reference,
        a.splice index choice ∈ table.resolved a := by
      intro choice hchoice
      rw [resolved_of_firstForced? hfirst]
      exact List.mem_map_of_mem hchoice
    rw [hothers] at htarget
    rcases List.mem_cons.1 htarget with rfl | hmem
    · -- The leftmost reference gives way to those of its target.
      refine Or.inr ⟨hcontains, fun further hfurther => ?_⟩
      obtain ⟨choice, hchoice, hmem⟩ := forces_iff.1 hfurther
      apply hnext (hspliced choice hchoice)
      rw [hsplice]
      exact List.mem_append_left _ hmem
    · -- Any other one stays in whatever is put in front of it.
      left
      obtain ⟨choice, hchoice⟩ := List.exists_mem_of_ne_nil _
        (hformed.inhabited reference (contains_iff_mem_symbols.1 hcontains))
      apply hnext (hspliced choice hchoice)
      rw [hsplice]
      exact List.mem_append_right _ hmem

theorem Pass.transGen (h : Pass symbol table next)
    (hpath : Relation.TransGen next.Forces symbol target) :
    Relation.TransGen table.Forces symbol target :=
  Relation.TransGen.closed (fun _ _ => h.transGen_of_forces) _ _ hpath

theorem Pass.not_reachesCycle (h : Pass symbol table next) (hfree : ¬table.ReachesCycle symbol) :
    ¬next.ReachesCycle symbol := by
  rintro ⟨other, hpath, hcycle⟩
  refine hfree ⟨other, ?_, Relation.TransGen.closed (fun _ _ => h.transGen_of_forces) _ _ hcycle⟩
  rcases Relation.reflTransGen_iff_eq_or_transGen.1 hpath with rfl | hpath
  · exact .refl
  · exact (h.transGen hpath).to_reflTransGen

theorem ne_of_transGen (hfree : ¬table.ReachesCycle symbol)
    (hpath : Relation.TransGen table.Forces symbol target) : target ≠ symbol := by
  rintro rfl
  exact hfree ⟨target, .refl, hpath⟩

/-- Where forced references lead before a pass they lead after it, unless a defined symbol is
replaced. -/
theorem Pass.transGen_or_contains (h : Pass symbol table next) (hformed : table.WellFormed)
    (hfree : ¬table.ReachesCycle symbol) (hpath : Relation.TransGen table.Forces symbol target) :
    Relation.TransGen next.Forces symbol target ∨ table.contains target = true := by
  have hstronger : Relation.TransGen next.Forces symbol target ∨
      table.contains target = true ∧
        ∀ further, table.Forces target further → next.Forces symbol further := by
    induction hpath with
    | single hforces => exact (h.forces_cases hformed hforces).imp_left .single
    | @tail middle target hpath hforces ih =>
      rcases ih with hmiddle | ⟨-, hall⟩
      · refine Or.inl (hmiddle.tail ?_)
        rw [forces_iff, h.alternatives_eq, if_neg (ne_of_transGen hfree hpath), ← forces_iff]
        exact hforces
      · exact Or.inl (.single (hall target hforces))
  exact hstronger.imp_right And.left

/-! ## The loop -/

/-- Resolving `symbol` fails at a forced reference that leads to a symbol that is not defined. -/
def FailsUndefined (table : Table) (symbol : Symbol) (result : Except GrammarError Unit) : Prop :=
  ∃ target, result = .error (.undefinedForcedReference symbol target) ∧
    Relation.TransGen table.Forces symbol target ∧ table.contains target = false

/-- The loop succeeds if the passes suffice and all targets are defined, runs out of passes if they
do not suffice, or fails at a target that is not defined. -/
theorem Repeats.outcome {limit made : Nat} {result : Except GrammarError Unit × Table}
    (h : Repeats symbol limit made table result) (hmade : made ≤ limit)
    (hformed : table.WellFormed) (hfree : ¬table.ReachesCycle symbol)
    (hneeded : ∀ target, Relation.TransGen table.Forces symbol target →
      needed target = mostPasses needed (table.alternatives target)) :
    (result.1 = .ok () ∧ made + mostPasses needed (table.alternatives symbol) ≤ limit ∧
        ∀ target, Relation.TransGen table.Forces symbol target → table.contains target = true) ∨
      (result.1 = .error (.unfoldCycle symbol limit []) ∧
        limit < made + mostPasses needed (table.alternatives symbol)) ∨
      table.FailsUndefined symbol result.1 := by
  induction h with
  | @settled table made hresolved =>
    refine Or.inl ⟨rfl, ?_, ?_⟩
    · rw [(resolved_iff_mostPasses needed).1 hresolved]
      exact hmade
    · intro target hpath
      obtain ⟨first, hforces, -⟩ := Relation.TransGen.head'_iff.1 hpath
      exact absurd hforces hresolved.not_forces
  | @spent table hleft =>
    refine Or.inr (Or.inl ⟨rfl, ?_⟩)
    rw [resolved_iff_mostPasses needed] at hleft
    omega
  | @stuck table made index a reference _ ha hfirst hundefined =>
    obtain ⟨others, hothers, -⟩ := Alternative.exists_others_of_firstForced? hfirst
    have hforces : table.Forces symbol reference :=
      forces_iff.2 ⟨a, ha, hothers ▸ List.mem_cons_self⟩
    exact Or.inr (Or.inr ⟨reference, rfl, .single hforces, hundefined⟩)
  | @pass table next made result hne hpass _ ih =>
    have hneeded' : ∀ target, Relation.TransGen next.Forces symbol target →
        needed target = mostPasses needed (next.alternatives target) := by
      intro target hpath
      have hpath := hpass.transGen hpath
      rw [hpass.alternatives_eq, if_neg (ne_of_transGen hfree hpath)]
      exact hneeded target hpath
    have hcontains := contains_congr hpass.symbols_eq
    have hmost := hpass.mostPasses_le_iff hformed
      (fun target hforces => hneeded target (.single hforces)) (limit - (made + 1))
    rcases ih (by omega) (hformed.pass hpass) (hpass.not_reachesCycle hfree) hneeded' with
      ⟨hok, hle, hdefined⟩ | ⟨herror, hlt⟩ | ⟨target, herror, hpath, hundefined⟩
    · refine Or.inl ⟨hok, by omega, fun target hpath => ?_⟩
      rcases hpass.transGen_or_contains hformed hfree hpath with hpath' | hcontains'
      · rw [← hcontains]
        exact hdefined target hpath'
      · exact hcontains'
    · exact Or.inr (Or.inl ⟨herror, by omega⟩)
    · rw [hcontains] at hundefined
      exact Or.inr (Or.inr ⟨target, herror, hpass.transGen hpath, hundefined⟩)

/-! ## The result -/

/-- The limit on the passes is exact. Where the forced references of a symbol lead to no cycle, an
alternative takes one pass for each of its forced references and as many as their targets take, and
a symbol as many as the alternative of it that takes most. If everything that the symbol leads to is
defined, resolving it succeeds if and only if so many passes are allowed, and otherwise it fails
once all of them are made. If something is not defined, resolving never succeeds: it fails there, or
because all passes are made, and always there if so many passes are allowed. In any case its loop
comes to an end. -/
theorem pass_limit_exact {table : Table} (h : table.Reachable) {symbol : Symbol}
    (hfree : ¬table.ReachesCycle symbol) :
    (∀ other, Relation.ReflTransGen table.Forces symbol other →
      table.passesNeeded other = mostPasses table.passesNeeded (table.alternatives other)) ∧
    ((∀ target, Relation.TransGen table.Forces symbol target → table.contains target = true) →
      ∀ limit, (table.unfold symbol limit).1 =
        if table.passesNeeded symbol ≤ limit then .ok ()
        else .error (.unfoldCycle symbol limit [])) ∧
    ((∃ target, Relation.TransGen table.Forces symbol target ∧ table.contains target = false) →
      ∀ limit,
        (table.FailsUndefined symbol (table.unfold symbol limit).1 ∨
          (table.unfold symbol limit).1 = .error (.unfoldCycle symbol limit [])) ∧
        (table.passesNeeded symbol ≤ limit →
          table.FailsUndefined symbol (table.unfold symbol limit).1)) ∧
    ∀ limit, Repeats symbol limit 0 table (table.unfold symbol limit) := by
  have hneeded : ∀ other, Relation.ReflTransGen table.Forces symbol other →
      table.passesNeeded other = mostPasses table.passesNeeded (table.alternatives other) := by
    intro other hpath
    apply passesNeeded_eq
    rintro ⟨last, hrest, hcycle⟩
    exact hfree ⟨last, hpath.trans hrest, hcycle⟩
  have hloop : ∀ limit, Repeats symbol limit 0 table (table.unfold symbol limit) := by
    intro limit
    rcases unfold_cases table symbol limit with ⟨path, hcycle, -⟩ | ⟨-, hrepeats⟩
    · exact absurd hcycle.reachesCycle hfree
    · exact hrepeats
  have houtcome := fun limit => (hloop limit).outcome (Nat.zero_le limit) h.wellFormed hfree
    fun target hpath => hneeded target hpath.to_reflTransGen
  simp only [Nat.zero_add, ← hneeded symbol .refl] at houtcome
  refine ⟨hneeded, ?_, ?_, hloop⟩
  · intro hdefined limit
    rcases houtcome limit with ⟨hok, hle, -⟩ | ⟨herror, hlt⟩ | ⟨target, -, hpath, hundefined⟩
    · rw [if_pos hle, hok]
    · rw [if_neg (Nat.not_le.2 hlt), herror]
    · rw [hdefined target hpath] at hundefined
      cases hundefined
  · rintro ⟨target, hpath, hundefined⟩ limit
    rcases houtcome limit with ⟨-, -, hdefined⟩ | ⟨herror, hlt⟩ | hfails
    · rw [hdefined target hpath] at hundefined
      cases hundefined
    · exact ⟨Or.inr herror, fun hle => absurd hle (Nat.not_le.2 hlt)⟩
    · exact ⟨Or.inl hfails, fun _ => hfails⟩

/-- A source whose last forced reference comes up in the second pass and is not defined. -/
def lostSource : Text :=
  "$s=x|>$a>$b;$a=1|2;$b=>$gone|y".toList

def lost : Table :=
  let a := Symbol.ofIdentifier ['a']
  let b := Symbol.ofIdentifier ['b']
  { rows := [(.start, ⟨[⟨[.literal ['x']]⟩, ⟨[.forced a, .forced b]⟩]⟩),
      (a, ⟨[⟨[.literal ['1']]⟩, ⟨[.literal ['2']]⟩]⟩),
      (b, ⟨[⟨[.forced (.ofIdentifier "gone".toList)]⟩, ⟨[.literal ['y']]⟩]⟩)]
    forced := [.start, b] }

theorem acyclic_lost : lost.Acyclic := by
  apply acyclic_of_rank fun symbol => lost.rows.length - lost.symbols.idxOf symbol
  decide

theorem nested_and_lost_pass_limit :
    (Table.parse nestedSource = .ok nested ∧ ¬nested.ReachesCycle .start ∧
      nested.passesNeeded .start = 6 ∧
      (∀ target, Relation.TransGen nested.Forces .start target →
        nested.contains target = true) ∧
      ∀ limit, (nested.unfold .start limit).1 =
        if nested.passesNeeded .start ≤ limit then .ok ()
        else .error (.unfoldCycle .start limit [])) ∧
    Table.parse lostSource = .ok lost ∧ ¬lost.ReachesCycle .start ∧
      lost.passesNeeded .start = 3 ∧
      (∃ target, Relation.TransGen lost.Forces .start target ∧ lost.contains target = false) ∧
      (lost.unfold .start 1).1 = .error (.unfoldCycle .start 1 []) ∧
      (∀ limit, lost.passesNeeded .start ≤ limit →
        lost.FailsUndefined .start (lost.unfold .start limit).1) ∧
      Repeats .start 1 0 lost (lost.unfold .start 1) := by
  have hnested : Table.parse nestedSource = .ok nested := by decide +kernel
  have hlost : Table.parse lostSource = .ok lost := by decide +kernel
  have hnestedFree : ¬nested.ReachesCycle .start := acyclic_nested.not_reachesCycle
  have hlostFree : ¬lost.ReachesCycle .start := acyclic_lost.not_reachesCycle
  have hspent : (lost.unfold .start 1).1 = .error (.unfoldCycle .start 1 []) := by
    rw [unfold_eq_unfoldPasses hlostFree]
    decide +kernel
  have hdefined : ∀ target, Relation.TransGen nested.Forces .start target →
      nested.contains target = true := by
    intro target hpath
    obtain ⟨source, -, hforces⟩ := Relation.TransGen.tail'_iff.1 hpath
    obtain ⟨row, hrow, -, htarget⟩ := exists_row_of_forces hforces
    have hall : ∀ row ∈ nested.rows, ∀ target ∈ row.2.forcedReferences,
        nested.contains target = true := by decide
    exact hall row hrow target htarget
  have hundefined : ∃ target, Relation.TransGen lost.Forces .start target ∧
      lost.contains target = false :=
    ⟨.ofIdentifier "gone".toList, .head (b := .ofIdentifier ['b']) (by decide)
      (.single (by decide)), by decide⟩
  obtain ⟨-, hexact, -⟩ := pass_limit_exact (.read hnested) hnestedFree
  obtain ⟨-, -, hnever, hloop⟩ := pass_limit_exact (.read hlost) hlostFree
  exact ⟨⟨hnested, hnestedFree, by decide, hdefined, hexact hdefined⟩, hlost, hlostFree, by decide,
    hundefined, hspent, fun limit => (hnever hundefined limit).2, hloop 1⟩

end Table

end TextGrammar
