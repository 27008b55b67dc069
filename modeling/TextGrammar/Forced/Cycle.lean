import TextGrammar.Table.Basic

/-!
# Cycles of forced references

Resolving a forced reference puts the alternatives of its target in its place, so it can only come
to an end if forced references do not lead back to where they began. `Table.forcedCycle?` walks
them depth first and gives the path to the first reference that comes back to the path.
-/

namespace TextGrammar

namespace Table

/-- The symbols a symbol refers to by force, in order; none if it is not defined. -/
def forcedReferences (table : Table) (symbol : Symbol) : List Symbol :=
  match table.get? symbol with
  | some production => production.forcedReferences
  | none => []

/-- The number of definitions whose symbols are not on a path. -/
def offPath (table : Table) (path : List Symbol) : Nat :=
  table.symbols.countP fun symbol => decide (symbol ∉ path)

theorem mem_symbols_of_contains {table : Table} {symbol : Symbol}
    (h : table.contains symbol = true) : symbol ∈ table.symbols := by
  obtain ⟨production, hget⟩ := Option.isSome_iff_exists.1 h
  clear h
  unfold get? at hget
  unfold symbols
  generalize table.rows = rows at hget ⊢
  induction rows with
  | nil => simp at hget
  | cons row rest ih =>
    obtain ⟨key, value⟩ := row
    rw [List.lookup_cons] at hget
    split at hget
    · rename_i heq
      simp [beq_iff_eq.1 heq]
    · exact List.mem_cons_of_mem _ (ih hget)

theorem countP_not_mem_append_lt {symbols path : List Symbol} {symbol : Symbol}
    (hmem : symbol ∈ symbols) (hnew : symbol ∉ path) :
    (symbols.countP fun s => decide (s ∉ path ++ [symbol])) <
      symbols.countP fun s => decide (s ∉ path) := by
  induction symbols with
  | nil => simp at hmem
  | cons first rest ih =>
    have hle : rest.countP (fun s => decide (s ∉ path ++ [symbol])) ≤
        rest.countP (fun s => decide (s ∉ path)) :=
      List.countP_mono_left fun s _ hs => by simp_all
    rw [List.countP_cons, List.countP_cons]
    by_cases hfirst : first = symbol
    · subst hfirst
      rw [if_neg (by simp), if_pos (by simpa using hnew)]
      omega
    · have hlt := ih ((List.mem_cons.1 hmem).resolve_left (Ne.symm hfirst))
      have heq : decide (first ∉ path ++ [symbol]) = decide (first ∉ path) := by simp [hfirst]
      rw [heq]
      omega

theorem offPath_append_lt {table : Table} {path : List Symbol} {symbol : Symbol}
    (hmem : symbol ∈ table.symbols) (hnew : symbol ∉ path) :
    table.offPath (path ++ [symbol]) < table.offPath path :=
  countP_not_mem_append_lt hmem hnew

/-- Walks some forced references of the last symbol of a path in order, and everything that forced
references lead to from there. Symbols in `done` were walked before and are passed over. Gives the
path to the first reference that comes back to the path, or the symbols done by then. -/
def walkForced (table : Table) (path : List Symbol) :
    List Symbol → List Symbol → Except (List Symbol) (List Symbol)
  | [], done => .ok done
  | symbol :: rest, done =>
    if _hpath : symbol ∈ path then .error (path ++ [symbol])
    else if symbol ∈ done then walkForced table path rest done
    else if _hdef : table.contains symbol then
      match walkForced table (path ++ [symbol]) (table.forcedReferences symbol) done with
      | .error cycle => .error cycle
      | .ok done => walkForced table path rest (symbol :: done)
    else walkForced table path rest (symbol :: done)
termination_by references => (table.offPath path, references.length)
decreasing_by
  · exact Prod.Lex.right _ (by simp)
  · exact Prod.Lex.left _ _ (offPath_append_lt (mem_symbols_of_contains _hdef) _hpath)
  · exact Prod.Lex.right _ (by simp)
  · exact Prod.Lex.right _ (by simp)

/-- The path of forced references from a symbol to the first one that comes back to the path. -/
def forcedCycle? (table : Table) (symbol : Symbol) : Option (List Symbol) :=
  match table.walkForced [symbol] (table.forcedReferences symbol) [] with
  | .error cycle => some cycle
  | .ok _ => none

end Table

end TextGrammar
