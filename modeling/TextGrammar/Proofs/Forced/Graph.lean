import Mathlib.Data.List.Nodup
import Mathlib.Logic.Relation
import TextGrammar.Proofs.Tables

/-!
# The graph of forced references

A symbol forces another if one of its alternatives holds a forced reference to it. Some things are
computed along these references, one level at a time; as long as another level makes a difference,
there is a chain of symbols that force one another down to that level
(`Table.exists_chain_of_ne`).
-/

namespace TextGrammar

namespace Table

/-- An edge of the graph of forced references. -/
def Forces (table : Table) (symbol target : Symbol) : Prop :=
  target ∈ table.forcedReferences symbol

instance (table : Table) (symbol target : Symbol) : Decidable (table.Forces symbol target) :=
  inferInstanceAs (Decidable (target ∈ table.forcedReferences symbol))

/-- Forced references do not lead back to where they began. -/
def Acyclic (table : Table) : Prop :=
  ∀ symbol, ¬Relation.TransGen table.Forces symbol symbol

variable {table : Table} {symbol target : Symbol}

theorem forcedReferences_eq_flatMap (table : Table) (symbol : Symbol) :
    table.forcedReferences symbol =
      (table.alternatives symbol).flatMap Alternative.forcedReferences := by
  unfold forcedReferences alternatives
  cases table.get? symbol with
  | none => rfl
  | some production => rfl

theorem forces_iff :
    table.Forces symbol target ↔
      ∃ a ∈ table.alternatives symbol, target ∈ a.forcedReferences := by
  unfold Forces
  rw [forcedReferences_eq_flatMap, List.mem_flatMap]

theorem exists_row_of_forces (h : table.Forces symbol target) :
    ∃ row ∈ table.rows, row.1 = symbol ∧ target ∈ row.2.forcedReferences := by
  unfold Forces forcedReferences at h
  split at h
  · rename_i production hget
    exact ⟨_, mem_rows_of_get? hget, rfl, h⟩
  · cases h

/-- Forced references that lead down in some order do not lead back. -/
theorem acyclic_of_rank (rank : Symbol → Nat)
    (h : ∀ row ∈ table.rows, ∀ target ∈ row.2.forcedReferences, rank target < rank row.1) :
    table.Acyclic := by
  have hforces : ∀ {symbol target}, table.Forces symbol target → rank target < rank symbol := by
    intro symbol target hforces
    obtain ⟨row, hrow, rfl, htarget⟩ := exists_row_of_forces hforces
    exact h row hrow target htarget
  have hpath : ∀ {symbol target}, Relation.TransGen table.Forces symbol target →
      rank target < rank symbol := by
    intro symbol target hpath
    induction hpath with
    | single hedge => exact hforces hedge
    | tail _ hedge ih => exact Nat.lt_trans (hforces hedge) ih
  intro symbol hcycle
  exact Nat.lt_irrefl _ (hpath hcycle)

/-- Where a value is computed from those of the forced targets one level down, and a greater depth
makes a difference, a chain of forced references is that long. -/
theorem exists_chain_of_ne {α : Type} (value : Nat → Symbol → α)
    (hundefined : ∀ symbol ∉ table.symbols, ∀ depth depth',
      value depth symbol = value depth' symbol)
    (hvalue : ∀ symbol depth depth',
      (∀ target, table.Forces symbol target → value depth target = value depth' target) →
        value (depth + 1) symbol = value (depth' + 1) symbol)
    {depth : Nat} (h : value (depth + 1) symbol ≠ value depth symbol) :
    ∃ rest : List Symbol, rest.length = depth ∧ (symbol :: rest).IsChain table.Forces ∧
      symbol :: rest ⊆ table.symbols := by
  have hdefined : symbol ∈ table.symbols := by
    by_contra hnot
    exact h (hundefined symbol hnot _ _)
  induction depth generalizing symbol with
  | zero => exact ⟨[], rfl, .singleton symbol, by simpa using hdefined⟩
  | succ depth ih =>
    -- Some target makes a difference one level down.
    have htarget : ∃ target, table.Forces symbol target ∧
        value (depth + 1) target ≠ value depth target := by
      by_contra hnone
      apply h
      apply hvalue
      intro target hforces
      by_contra hne
      exact hnone ⟨target, hforces, hne⟩
    obtain ⟨target, hforces, hne⟩ := htarget
    have htarget : target ∈ table.symbols := by
      by_contra hnot
      exact hne (hundefined target hnot _ _)
    obtain ⟨rest, hlength, hchain, hsymbols⟩ := ih hne htarget
    refine ⟨target :: rest, by rw [List.length_cons, hlength], ?_, ?_⟩
    · exact List.isChain_cons_cons.2 ⟨hforces, hchain⟩
    · exact List.cons_subset.2 ⟨hdefined, hsymbols⟩

end Table

end TextGrammar
