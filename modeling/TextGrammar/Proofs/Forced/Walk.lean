import Mathlib.Data.List.Chain
import TextGrammar.Proofs.Forced.Graph

/-!
# The walk along forced references

`Table.walkForced` is a depth-first search that carries the path to where it is and the symbols it
is done with. It finds a way back exactly where there is one.

* `Table.Walk` gives the rules of the search alone, without the measure that goes down. Every
  search follows them to a result (`Table.walk_walkForced`).
* `Table.Trail` is the invariant of the path. `Table.Walk.exists_return` shows that the path that a
  failing search gives is one of forced references to the first symbol that comes back.
* `Table.Walk.not_reachesCycle` shows that a search that succeeds has passed over no cycle: what it
  is done with leads to none.
* `Table.forcedCycle?_eq_some` and `Table.forcedCycle?_eq_none` put the two together.
* `Table.length_le_of_not_reachesCycle`: where no cycle is reached, a chain of symbols that force
  one another is no longer than the table.
-/

namespace TextGrammar

namespace Table

variable {table : Table} {path references done : List Symbol} {symbol : Symbol}

/-! ## The search as rules -/

/-- `table.Walk path references done result`: the search that stands at the end of `path`, has the
forced references `references` still to follow and is done with `done`, ends with `result`. -/
inductive Walk (table : Table) : List Symbol → List Symbol → List Symbol →
    Except (List Symbol) (List Symbol) → Prop where
  /-- Nothing is left to follow. -/
  | finish (path done : List Symbol) : Walk table path [] done (.ok done)
  /-- The next reference comes back to the path. -/
  | back {path : List Symbol} {symbol : Symbol} (rest done : List Symbol)
      (hpath : symbol ∈ path) : Walk table path (symbol :: rest) done (.error (path ++ [symbol]))
  /-- The next reference leads where the search is done. -/
  | skip {path rest done : List Symbol} {symbol : Symbol}
      {result : Except (List Symbol) (List Symbol)} (hpath : symbol ∉ path)
      (hdone : symbol ∈ done) (hrest : Walk table path rest done result) :
      Walk table path (symbol :: rest) done result
  /-- The search below the next reference comes back. -/
  | inner {path done cycle : List Symbol} {symbol : Symbol} (rest : List Symbol)
      (hpath : symbol ∉ path) (hdone : symbol ∉ done)
      (hinner : Walk table (path ++ [symbol]) (table.forcedReferences symbol) done
        (.error cycle)) :
      Walk table path (symbol :: rest) done (.error cycle)
  /-- The search below the next reference does not come back, and is done with it. -/
  | pass {path rest done done' : List Symbol} {symbol : Symbol}
      {result : Except (List Symbol) (List Symbol)} (hpath : symbol ∉ path)
      (hdone : symbol ∉ done)
      (hinner : Walk table (path ++ [symbol]) (table.forcedReferences symbol) done (.ok done'))
      (hrest : Walk table path rest (symbol :: done') result) :
      Walk table path (symbol :: rest) done result

theorem forcedReferences_of_not_contains (h : ¬table.contains symbol = true) :
    table.forcedReferences symbol = [] := by
  have hget : table.get? symbol = none := by simpa [contains] using h
  simp [forcedReferences, hget]

/-- The search comes to an end by its rules, wherever it starts. -/
theorem walk_walkForced (table : Table) (path references done : List Symbol) :
    table.Walk path references done (table.walkForced path references done) := by
  fun_induction walkForced table path references done with
  | case1 => exact .finish ..
  | case2 path done symbol rest hpath => exact .back _ _ hpath
  | case3 path done symbol rest hpath hdone ih => exact .skip hpath hdone ih
  | case4 path done symbol rest hpath hdone hdef cycle hinner ih =>
    rw [hinner] at ih
    exact .inner _ hpath hdone ih
  | case5 path done symbol rest hpath hdone hdef done' hinner ih ihrest =>
    rw [hinner] at ih
    exact .pass hpath hdone ih ihrest
  | case6 path done symbol rest hpath hdone hdef ih =>
    refine .pass hpath hdone ?_ ih
    rw [forcedReferences_of_not_contains hdef]
    exact .finish ..

/-! ## The path of a search that comes back -/

/-- A path of forced references that does not repeat a symbol, with references of its last
symbol. -/
structure Trail (table : Table) (path references : List Symbol) : Prop where
  chain : path.IsChain table.Forces
  distinct : path.Nodup
  forces : ∀ last ∈ path.getLast?, ∀ target ∈ references, table.Forces last target

theorem Trail.start (table : Table) (symbol : Symbol) :
    table.Trail [symbol] (table.forcedReferences symbol) := by
  refine ⟨.singleton symbol, List.nodup_singleton symbol, ?_⟩
  intro last hlast target htarget
  cases hlast
  exact htarget

theorem Trail.rest (h : table.Trail path (symbol :: references)) : table.Trail path references :=
  ⟨h.chain, h.distinct, fun last hlast target htarget =>
    h.forces last hlast target (List.mem_cons_of_mem _ htarget)⟩

theorem Trail.isChain_append (h : table.Trail path (symbol :: references)) :
    (path ++ [symbol]).IsChain table.Forces := by
  refine List.isChain_append.2 ⟨h.chain, .singleton symbol, ?_⟩
  intro last hlast target htarget
  cases htarget
  exact h.forces last hlast symbol List.mem_cons_self

theorem Trail.inner (h : table.Trail path (symbol :: references)) (hpath : symbol ∉ path) :
    table.Trail (path ++ [symbol]) (table.forcedReferences symbol) := by
  refine ⟨h.isChain_append, ?_, ?_⟩
  · exact List.nodup_append.2 ⟨h.distinct, List.nodup_singleton symbol, by
      rintro other hother _ hlast rfl
      exact hpath (List.mem_singleton.1 hlast ▸ hother)⟩
  · intro last hlast target htarget
    rw [List.getLast?_concat] at hlast
    cases hlast
    exact htarget

/-- A path of forced references from a symbol to the first symbol that it comes back to. -/
structure ForcedCycle (table : Table) (symbol : Symbol) (path : List Symbol) : Prop where
  starts : path.head? = some symbol
  chain : path.IsChain table.Forces
  distinct : path.dropLast.Nodup
  returns : ∃ last, path.getLast? = some last ∧ last ∈ path.dropLast

/-- A search that comes back gives a path that goes on from its own, to a symbol on it. -/
theorem Walk.exists_return {cycle : List Symbol}
    (h : table.Walk path references done (.error cycle)) (htrail : table.Trail path references) :
    ∃ more last, cycle = path ++ more ++ [last] ∧ cycle.IsChain table.Forces ∧
      (path ++ more).Nodup ∧ last ∈ path ++ more := by
  generalize hresult : Except.error cycle = result at h
  induction h with
  | finish => cases hresult
  | @back path symbol rest done hpath =>
    cases hresult
    refine ⟨[], symbol, by rw [List.append_nil], htrail.isChain_append, ?_, ?_⟩
    · rw [List.append_nil]
      exact htrail.distinct
    · rw [List.append_nil]
      exact hpath
  | skip _ _ _ ih => exact ih htrail.rest hresult
  | @inner path done cycle symbol rest hpath _ _ ih =>
    obtain ⟨more, last, hcycle, hchain, hnodup, hlast⟩ := ih (htrail.inner hpath) hresult
    rw [List.append_assoc] at hnodup hlast
    refine ⟨[symbol] ++ more, last, ?_, hchain, hnodup, hlast⟩
    rw [hcycle, List.append_assoc path]
  | pass _ _ _ _ _ ih => exact ih htrail.rest hresult

/-! ## Symbols that lead to no cycle -/

/-- Forced references lead from a symbol to one that they lead back to. -/
def ReachesCycle (table : Table) (symbol : Symbol) : Prop :=
  ∃ other, Relation.ReflTransGen table.Forces symbol other ∧
    Relation.TransGen table.Forces other other

theorem not_reachesCycle (h : ∀ target, table.Forces symbol target → ¬table.ReachesCycle target) :
    ¬table.ReachesCycle symbol := by
  rintro ⟨other, hpath, hcycle⟩
  rcases Relation.ReflTransGen.cases_head hpath with rfl | ⟨target, hforces, hrest⟩
  · -- The symbol lies on the cycle itself, and so does the next one.
    obtain ⟨target, hforces, hrest⟩ := Relation.TransGen.head'_iff.1 hcycle
    exact h target hforces ⟨symbol, hrest, hcycle⟩
  · exact h target hforces ⟨other, hrest, hcycle⟩

theorem Acyclic.not_reachesCycle (h : table.Acyclic) : ¬table.ReachesCycle symbol :=
  fun ⟨other, _, hcycle⟩ => h other hcycle

/-- A chain of symbols that force one another does not repeat one, if it begins where no cycle is
reached. -/
theorem nodup_of_not_reachesCycle (h : ¬table.ReachesCycle symbol) {rest : List Symbol}
    (hchain : (symbol :: rest).IsChain table.Forces) : (symbol :: rest).Nodup := by
  have htrans : (symbol :: rest).IsChain (Relation.TransGen table.Forces) :=
    hchain.imp fun _ _ => Relation.TransGen.single
  have hpairwise := List.isChain_iff_pairwise.1 htrans
  have hpath : ∀ other ∈ symbol :: rest, Relation.ReflTransGen table.Forces symbol other :=
    List.forall_mem_cons.2 ⟨.refl, fun other hmem =>
      ((List.pairwise_cons.1 hpairwise).1 other hmem).to_reflTransGen⟩
  refine hpairwise.imp_of_mem ?_
  rintro other _ hmem - hcycle rfl
  exact h ⟨other, hpath other hmem, hcycle⟩

theorem length_le_of_not_reachesCycle (h : ¬table.ReachesCycle symbol) {rest : List Symbol}
    (hchain : (symbol :: rest).IsChain table.Forces) (hdefined : symbol :: rest ⊆ table.symbols) :
    (symbol :: rest).length ≤ table.rows.length := by
  have hle := (nodup_of_not_reachesCycle h hchain).length_le_of_subset hdefined
  rwa [symbols, List.length_map] at hle

/-- If a search ends without coming back, neither what it followed nor what it is done with leads to
a cycle. Of the path nothing is asked: a symbol is done only when all of its targets are. -/
theorem Walk.not_reachesCycle {done' : List Symbol}
    (h : table.Walk path references done (.ok done'))
    (hdone : ∀ symbol ∈ done, ¬table.ReachesCycle symbol) :
    (∀ symbol ∈ references, ¬table.ReachesCycle symbol) ∧
      ∀ symbol ∈ done', ¬table.ReachesCycle symbol := by
  generalize hresult : Except.ok done' = result at h
  induction h generalizing done' with
  | finish =>
    cases hresult
    exact ⟨by simp, hdone⟩
  | back => cases hresult
  | @skip path rest done symbol result _ hmem _ ih =>
    obtain ⟨hrest, hend⟩ := ih hdone hresult
    exact ⟨List.forall_mem_cons.2 ⟨hdone symbol hmem, hrest⟩, hend⟩
  | inner => cases hresult
  | @pass path rest done done'' symbol result _ _ _ _ ihinner ihrest =>
    obtain ⟨htargets, hinner⟩ := ihinner hdone rfl
    have hsymbol : ¬table.ReachesCycle symbol := Table.not_reachesCycle htargets
    obtain ⟨hrest, hend⟩ := ihrest (List.forall_mem_cons.2 ⟨hsymbol, hinner⟩) hresult
    exact ⟨List.forall_mem_cons.2 ⟨hsymbol, hrest⟩, hend⟩

/-! ## The result of the search -/

theorem ForcedCycle.reachesCycle (h : table.ForcedCycle symbol path) :
    table.ReachesCycle symbol := by
  obtain ⟨last, hlast, hmem⟩ := h.returns
  have hpath : path = path.dropLast ++ [last] := by
    rw [List.dropLast_append_getLast? last hlast]
  have hchain : (path.dropLast ++ [last]).IsChain (Relation.TransGen table.Forces) := by
    rw [← hpath]
    exact h.chain.imp fun _ _ => Relation.TransGen.single
  have hcycle : Relation.TransGen table.Forces last last :=
    (List.pairwise_append.1 (List.isChain_iff_pairwise.1 hchain)).2.2 last hmem last
      (List.mem_singleton_self last)
  refine ⟨last, ?_, hcycle⟩
  have hstarts := h.starts
  cases hfront : path.dropLast with
  | nil => simp [hfront] at hmem
  | cons first front =>
    rw [hpath, hfront] at hstarts
    cases hstarts
    rw [hfront] at hmem hchain
    rcases List.mem_cons.1 hmem with rfl | hmem
    · exact .refl
    · have hpairwise := (List.isChain_iff_pairwise.1 hchain)
      exact ((List.pairwise_cons.1 hpairwise).1 last
        (List.mem_append_left _ hmem)).to_reflTransGen

/-- The path that is found leads from the symbol to the first symbol that comes back. -/
theorem forcedCycle?_eq_some (h : table.forcedCycle? symbol = some path) :
    table.ForcedCycle symbol path := by
  have hwalk := table.walk_walkForced [symbol] (table.forcedReferences symbol) []
  unfold forcedCycle? at h
  split at h
  · rename_i cycle herror
    cases h
    rw [herror] at hwalk
    obtain ⟨more, last, rfl, hchain, hnodup, hlast⟩ := hwalk.exists_return (.start table symbol)
    refine ⟨rfl, hchain, ?_, last, ?_, ?_⟩
    · rw [List.dropLast_concat]
      exact hnodup
    · rw [List.getLast?_concat]
    · rw [List.dropLast_concat]
      exact hlast
  · cases h

/-- If no path is found, forced references lead to no cycle. -/
theorem forcedCycle?_eq_none (h : table.forcedCycle? symbol = none) :
    ¬table.ReachesCycle symbol := by
  have hwalk := table.walk_walkForced [symbol] (table.forcedReferences symbol) []
  unfold forcedCycle? at h
  split at h
  · cases h
  · rename_i done hok
    rw [hok] at hwalk
    exact Table.not_reachesCycle (hwalk.not_reachesCycle (by simp)).1

end Table

end TextGrammar
