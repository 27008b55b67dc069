import TextGrammar.Proofs.Forced.PassLimit

/-!
# What resolving a symbol changes

Resolving a symbol rewrites its row, pass after pass, and reads the rows of other symbols for it.

* `Table.SameOutside` holds of tables that differ in the row of one symbol at most.
* `Table.Passes` counts the passes over a symbol. `Table.Passes.alternatives_eq` computes the row
  that they lead to from the table before the first one: the symbol does not force itself, so the
  rows that are read stay as they were.
* `Table.Halts` says how the loop over the passes ends, and what has been written by then.
* `Table.unfold_of_resolved`: without forced references a symbol is left alone, whatever the limit.
* `Table.unfold_changes_one_row` is the result.
-/

namespace TextGrammar

namespace Table

variable {table last next : Table} {symbol : Symbol} {limit made : Nat}

/-! ## The other rows -/

/-- Tables that differ in the production of one symbol at most. -/
structure SameOutside (symbol : Symbol) (table last : Table) : Prop where
  symbols_eq : last.symbols = table.symbols
  forced_eq : last.forced = table.forced
  get?_eq : ∀ other, other ≠ symbol → last.get? other = table.get? other

theorem SameOutside.refl (symbol : Symbol) (table : Table) : SameOutside symbol table table :=
  ⟨rfl, rfl, fun _ _ => rfl⟩

theorem SameOutside.trans (h : SameOutside symbol table last) (h' : SameOutside symbol last next) :
    SameOutside symbol table next :=
  ⟨h'.symbols_eq.trans h.symbols_eq, h'.forced_eq.trans h.forced_eq,
    fun other hne => (h'.get?_eq other hne).trans (h.get?_eq other hne)⟩

theorem Pass.sameOutside (h : Pass symbol table next) : SameOutside symbol table next := by
  refine ⟨h.symbols_eq, h.forced_eq, ?_⟩
  obtain ⟨-, -, -⟩ := h
  intro other hne
  rw [get?_replace, if_neg hne]

/-- What stands in place of an alternative does not depend on a symbol that it does not force. -/
theorem SameOutside.resolved_eq (h : SameOutside symbol table last) {a : Alternative}
    (ha : symbol ∉ a.forcedReferences) : last.resolved a = table.resolved a := by
  cases hfirst : a.firstForced? with
  | none => rw [resolved_of_firstForced?_eq_none hfirst, resolved_of_firstForced?_eq_none hfirst]
  | some found =>
    obtain ⟨index, reference⟩ := found
    obtain ⟨others, hothers, -⟩ := Alternative.exists_others_of_firstForced? hfirst
    have hne : reference ≠ symbol := by
      rintro rfl
      exact ha (hothers ▸ List.mem_cons_self)
    rw [resolved_of_firstForced? hfirst, resolved_of_firstForced? hfirst, alternatives,
      alternatives, h.get?_eq reference hne]

/-! ## A number of passes -/

/-- `Passes symbol table made last`: from `table`, exactly `made` passes over `symbol` lead to
`last`. Each reads the table that the one before it left behind. -/
inductive Passes (symbol : Symbol) (table : Table) : Nat → Table → Prop where
  | start : Passes symbol table 0 table
  | next {made : Nat} {last next : Table} (h : Passes symbol table made last)
      (hpass : Pass symbol last next) : Passes symbol table (made + 1) next

theorem Passes.sameOutside (h : Passes symbol table made last) : SameOutside symbol table last := by
  induction h with
  | start => exact .refl symbol table
  | next _ hpass ih => exact ih.trans hpass.sameOutside

theorem Passes.not_reachesCycle (h : Passes symbol table made last)
    (hfree : ¬table.ReachesCycle symbol) : ¬last.ReachesCycle symbol := by
  induction h with
  | start => exact hfree
  | next _ hpass ih => exact hpass.not_reachesCycle ih

/-- The alternatives of a symbol after a number of passes that all find their targets in the table
as it is now. -/
def afterPasses (table : Table) (symbol : Symbol) : Nat → List Alternative
  | 0 => table.alternatives symbol
  | made + 1 => (table.afterPasses symbol made).flatMap table.resolved

/-- Where no cycle is reached, every pass finds its targets as they were before the first one. -/
theorem Passes.alternatives_eq (h : Passes symbol table made last)
    (hfree : ¬table.ReachesCycle symbol) :
    last.alternatives symbol = table.afterPasses symbol made := by
  induction h with
  | start => rfl
  | @next made last next hpasses hpass ih =>
    rw [hpass.alternatives_eq, if_pos rfl, afterPasses, ← ih]
    apply List.flatMap_congr
    intro a ha
    apply hpasses.sameOutside.resolved_eq
    intro hmem
    have hforces : last.Forces symbol symbol := forces_iff.2 ⟨a, ha, hmem⟩
    exact hpasses.not_reachesCycle hfree ⟨symbol, .refl, .single hforces⟩

/-! ## The loop -/

/-- `Halts symbol limit table made result`: the loop over the passes of `symbol`, of which `limit`
are allowed, ends with `result` after `made` passes from `table`. -/
inductive Halts (symbol : Symbol) (limit : Nat) (table : Table) :
    Nat → Except GrammarError Unit × Table → Prop where
  /-- No forced reference is left. -/
  | settled {made : Nat} {last : Table} (hmade : made ≤ limit)
      (hpasses : Passes symbol table made last) (hresolved : last.Resolved symbol) :
      Halts symbol limit table made (.ok (), last)
  /-- All passes are made. -/
  | spent {last : Table} (hpasses : Passes symbol table limit last)
      (hleft : ¬last.Resolved symbol) :
      Halts symbol limit table limit (.error (.unfoldCycle symbol limit []), last)
  /-- The next pass comes to a symbol that is not defined. Nothing of that pass is written. -/
  | stuck {made : Nat} {last : Table} {reference : Symbol} (hmade : made < limit)
      (hpasses : Passes symbol table made last)
      (hfails : last.unfoldPass symbol (last.alternatives symbol) =
        .error (.undefinedForcedReference symbol reference)) :
      Halts symbol limit table made (.error (.undefinedForcedReference symbol reference), last)

theorem exists_halts_unfoldPasses {left : Nat} (hleft : made + left = limit)
    (h : Passes symbol table made last) :
    ∃ made, Halts symbol limit table made (unfoldPasses symbol limit left last) := by
  fun_induction unfoldPasses symbol limit left last generalizing made with
  | case1 left last hget =>
    exact ⟨made, .settled (by omega) h (resolved_of_get?_eq_none hget)⟩
  | case2 last production hget hforced =>
    obtain rfl : made = limit := hleft
    refine ⟨made, .spent h ?_⟩
    rw [resolved_iff_of_get? hget, not_not]
    exact hforced
  | case3 last production hget hforced left error hfails =>
    obtain ⟨_, _, _, reference, _, _, rfl⟩ := unfoldPass_eq_error hfails
    rw [← alternatives_of_get? hget] at hfails
    exact ⟨made, .stuck (by omega) h hfails⟩
  | case4 last production hget hforced left alternatives hpass ih =>
    exact ih (by omega) (h.next (.intro hget hforced hpass))
  | case5 left last production hget hforced =>
    exact ⟨made, .settled (by omega) h ((resolved_iff_of_get? hget).2 hforced)⟩

/-- Without a cycle the loop is entered, and ends after some passes. -/
theorem exists_halts_unfold (hfree : ¬table.ReachesCycle symbol) (limit : Nat) :
    ∃ made, Halts symbol limit table made (table.unfold symbol limit) := by
  cases hcycle : table.forcedCycle? symbol with
  | some path => exact absurd (forcedCycle?_eq_some hcycle).reachesCycle hfree
  | none =>
    simp only [unfold, hcycle]
    exact exists_halts_unfoldPasses (Nat.zero_add limit) .start

theorem Resolved.not_reachesCycle (h : table.Resolved symbol) : ¬table.ReachesCycle symbol := by
  rintro ⟨other, hpath, hcycle⟩
  obtain ⟨first, hforces, -⟩ :=
    Relation.TransGen.head'_iff.1 (Relation.TransGen.trans_right hpath hcycle)
  exact h.not_forces hforces

/-- A symbol without forced references is left alone, even if no pass is allowed. -/
theorem unfold_of_resolved (h : table.Resolved symbol) (limit : Nat) :
    table.unfold symbol limit = (.ok (), table) := by
  rcases unfold_cases table symbol limit with ⟨path, hcycle, -⟩ | ⟨-, hrepeats⟩
  · exact absurd hcycle.reachesCycle h.not_reachesCycle
  · generalize table.unfold symbol limit = result at hrepeats ⊢
    cases hrepeats with
    | settled => rfl
    | spent hleft => exact absurd h hleft
    | stuck _ ha hfirst =>
      rw [h.firstForced?_eq_none ha] at hfirst
      cases hfirst
    | pass _ hpass =>
      obtain ⟨hget, hforced, -⟩ := hpass
      exact absurd hforced ((resolved_iff_of_get? hget).1 h)

/-! ## The result -/

/-- Resolving a symbol changes its row and nothing else, whatever comes of it: the order of the
definitions, the symbols that wait to be resolved and all other productions stay. What the row is
afterwards is known for every outcome. A symbol that is not defined, or that is refused because of a
cycle, is left as it is. When the passes run out, exactly as many as are allowed have been made, and
when a target is not defined, those before the pass that fails at it, of which nothing is written.
After a success there is nothing left to do: resolving the symbol again, under any limit, succeeds
and changes nothing, and if all symbols of a source have been resolved, so does resolving any
symbol. -/
theorem unfold_changes_one_row :
    (∀ (table : Table) (symbol : Symbol) (limit : Nat),
      let result := table.unfold symbol limit
      SameOutside symbol table result.2 ∧
      (table.get? symbol = none → result = (.ok (), table)) ∧
      (∀ error, result.1 = .error error →
        (∃ path, path ≠ [] ∧ error = .unfoldCycle symbol 0 path ∧ result.2 = table) ∨
        (error = .unfoldCycle symbol limit [] ∧ Passes symbol table limit result.2 ∧
          result.2.alternatives symbol = table.afterPasses symbol limit) ∨
        ∃ reference made, error = .undefinedForcedReference symbol reference ∧ made < limit ∧
          Passes symbol table made result.2 ∧
          result.2.alternatives symbol = table.afterPasses symbol made ∧
          result.2.unfoldPass symbol (result.2.alternatives symbol) = .error error) ∧
      (result.1 = .ok () →
        (∃ made ≤ limit, Passes symbol table made result.2 ∧
          result.2.alternatives symbol = table.afterPasses symbol made) ∧
        ∀ limit', result.2.unfold symbol limit' = (.ok (), result.2))) ∧
    ∀ (source : Text) (table table' : Table) (limit : Nat), Table.parse source = .ok table →
      table.unfoldAll limit = (.ok (), table') →
        ∀ symbol limit', table'.unfold symbol limit' = (.ok (), table') := by
  constructor
  · intro table symbol limit result
    have hundefined : table.get? symbol = none → result = (.ok (), table) := fun hget =>
      unfold_of_resolved (resolved_of_get?_eq_none hget) limit
    by_cases hreaches : table.ReachesCycle symbol
    · -- The symbol is refused before the first pass.
      obtain ⟨path, hcycle, hrefused⟩ := (unfold_cases table symbol limit).resolve_right
        fun h => h.1 hreaches
      have hresult : result = (.error (.unfoldCycle symbol 0 path), table) := hrefused
      refine ⟨hresult ▸ .refl symbol table, hundefined, fun error herror => ?_, fun hok => ?_⟩
      · rw [hresult] at herror
        cases herror
        exact .inl ⟨path, hcycle.ne_nil, rfl, congrArg Prod.snd hresult⟩
      · rw [hresult] at hok
        cases hok
    · obtain ⟨made, hhalts⟩ := exists_halts_unfold hreaches limit
      have hhalts : Halts symbol limit table made result := hhalts
      clear_value result
      cases hhalts with
      | settled hmade hpasses hresolved =>
        refine ⟨hpasses.sameOutside, hundefined, nofun, fun _ => ⟨?_, ?_⟩⟩
        · exact ⟨made, hmade, hpasses, hpasses.alternatives_eq hreaches⟩
        · exact unfold_of_resolved hresolved
      | spent hpasses =>
        refine ⟨hpasses.sameOutside, hundefined, fun error herror => ?_, nofun⟩
        cases herror
        exact .inr (.inl ⟨rfl, hpasses, hpasses.alternatives_eq hreaches⟩)
      | @stuck made last reference hmade hpasses hfails =>
        refine ⟨hpasses.sameOutside, hundefined, fun error herror => ?_, nofun⟩
        cases herror
        exact .inr (.inr ⟨reference, made, rfl, hmade, hpasses, hpasses.alternatives_eq hreaches,
          hfails⟩)
  · intro source table table' limit hparse hunfold symbol
    exact unfold_of_resolved
      ((asRead_of_parse hparse).resolved_of_unfoldEach (fun _ hmem => hmem) hunfold symbol)

/-- What `$s` of `lost` holds after the two passes that find all their targets. -/
def lostAlternatives : List Alternative :=
  let gone := Segment.forced (.ofIdentifier "gone".toList)
  [⟨[.literal ['x']]⟩, ⟨[.literal ['1'], gone]⟩, ⟨[.literal ['1', 'y']]⟩,
    ⟨[.literal ['2'], gone]⟩, ⟨[.literal ['2', 'y']]⟩]

theorem lost_changes_one_row :
    let gone := Symbol.ofIdentifier "gone".toList
    ((detour.unfold .start 64).1 = .error (.unfoldCycle .start 0 detourPath) ∧
      (detour.unfold .start 64).2 = detour) ∧
    (lost.get? gone = none ∧ lost.unfold gone 1 = (.ok (), lost)) ∧
    ((lost.unfold .start 1).1 = .error (.unfoldCycle .start 1 []) ∧
      Passes .start lost 1 (lost.unfold .start 1).2) ∧
    ((lost.unfold .start 64).1 = .error (.undefinedForcedReference .start gone) ∧
      SameOutside .start lost (lost.unfold .start 64).2 ∧
      (lost.unfold .start 64).2.alternatives .start = lostAlternatives ∧
      ∃ made, made < 64 ∧ Passes .start lost made (lost.unfold .start 64).2 ∧
        lostAlternatives = lost.afterPasses .start made ∧
        (lost.unfold .start 64).2.unfoldPass .start lostAlternatives =
          .error (.undefinedForcedReference .start gone)) ∧
    ((nested.unfold .start 6).1 = .ok () ∧
      (nested.unfold .start 6).2.unfold .start 0 = (.ok (), (nested.unfold .start 6).2)) ∧
    Table.parse nestedSource = .ok nested ∧ (nested.unfoldAll 6).1 = .ok () ∧
      ∀ symbol, (nested.unfoldAll 6).2.unfold symbol 0 = (.ok (), (nested.unfoldAll 6).2) := by
  intro gone
  obtain ⟨hone, hall⟩ := unfold_changes_one_row
  have hcycle : (detour.unfold .start 64).1 = .error (.unfoldCycle .start 0 detourPath) := by
    rw [unfold, forcedCycle?_detour]
  have hnone : lost.get? gone = none := by decide
  have hlost : ∀ limit, lost.unfold .start limit = unfoldPasses .start limit limit lost :=
    unfold_eq_unfoldPasses acyclic_lost.not_reachesCycle
  have hspent : (lost.unfold .start 1).1 = .error (.unfoldCycle .start 1 []) := by
    rw [hlost]
    decide +kernel
  have hstuck : (lost.unfold .start 64).1 = .error (.undefinedForcedReference .start gone) := by
    rw [hlost]
    decide +kernel
  have hrow : (lost.unfold .start 64).2.alternatives .start = lostAlternatives := by
    rw [hlost]
    decide +kernel
  have hsettled : (nested.unfold .start 6).1 = .ok () := by
    rw [unfold_eq_unfoldPasses acyclic_nested.not_reachesCycle]
    decide +kernel
  have hparse : Table.parse nestedSource = .ok nested := by decide +kernel
  have hok : (nested.unfoldAll 6).1 = .ok () := by
    rw [acyclic_nested.unfoldAll_eq]
    decide +kernel
  refine ⟨⟨hcycle, ?_⟩, ⟨hnone, (hone lost gone 1).2.1 hnone⟩, ⟨hspent, ?_⟩,
    ⟨hstuck, (hone lost .start 64).1, hrow, ?_⟩,
    ⟨hsettled, ((hone nested .start 6).2.2.2 hsettled).2 0⟩, hparse, hok,
    fun symbol => hall _ _ _ 6 hparse (Prod.ext hok rfl) symbol 0⟩
  · rcases (hone detour .start 64).2.2.1 _ hcycle with
      ⟨-, -, -, hkept⟩ | ⟨heq, -⟩ | ⟨_, _, heq, -⟩
    · exact hkept
    · cases heq
    · cases heq
  · rcases (hone lost .start 1).2.2.1 _ hspent with
      ⟨path, hne, heq, -⟩ | ⟨-, hpasses, -⟩ | ⟨_, _, heq, -⟩
    · cases heq
    · exact hpasses
    · cases heq
  · rcases (hone lost .start 64).2.2.1 _ hstuck with
      ⟨_, -, heq, -⟩ | ⟨heq, -⟩ | ⟨_, made, -, hmade, hpasses, hafter, hfails⟩
    · cases heq
    · cases heq
    · rw [hrow] at hafter hfails
      exact ⟨made, hmade, hpasses, hafter, hfails⟩

end Table

end TextGrammar
