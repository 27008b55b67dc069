import TextGrammar.Forced.Cycle

/-!
# Resolving forced references

`$s = a >$c hat; $c = red|blue` is resolved to `$s = a red hat|a blue hat`: where an ordinary
reference is chosen anew on every occurrence, a forced one is fixed in the alternative.

Resolving works on the table in place. When it fails, the table keeps what was resolved before.
-/

namespace TextGrammar

namespace Table

/-- Resolves the leftmost forced reference of one alternative of `symbol`: one alternative for each
alternative of the reference. -/
def unfoldAlternative (table : Table) (symbol : Symbol) (a : Alternative) :
    Except GrammarError (List Alternative) :=
  match a.firstForced? with
  | none => .ok [a]
  | some (index, reference) =>
    match table.get? reference with
    | none => .error (.undefinedForcedReference symbol reference)
    | some target => .ok (target.alternatives.map fun choice => a.splice index choice)

/-- Resolves the leftmost forced reference of every alternative of `symbol`. -/
def unfoldPass (table : Table) (symbol : Symbol) :
    List Alternative → Except GrammarError (List Alternative)
  | [] => .ok []
  | a :: rest => do
    let resolved ← table.unfoldAlternative symbol a
    let others ← unfoldPass table symbol rest
    return resolved ++ others

/-- Repeats the pass over the alternatives of `symbol` until no forced reference is left. `limit`
passes are allowed in all, and `left` of them remain. -/
def unfoldPasses (symbol : Symbol) (limit left : Nat) (table : Table) :
    Except GrammarError Unit × Table :=
  match table.get? symbol with
  | none => (.ok (), table)
  | some production =>
    if production.hasForced then
      match left with
      | 0 => (.error (.unfoldCycle symbol limit []), table)
      | left + 1 =>
        match table.unfoldPass symbol production.alternatives with
        | .error error => (.error error, table)
        | .ok alternatives =>
          unfoldPasses symbol limit left (table.replace symbol alternatives)
    else (.ok (), table)

/-- Resolves the forced references of one symbol in at most `limit` passes. A symbol whose forced
references come back is refused before anything is resolved. -/
def unfold (table : Table) (symbol : Symbol) (limit : Nat) : Except GrammarError Unit × Table :=
  match table.forcedCycle? symbol with
  | some path => (.error (.unfoldCycle symbol 0 path), table)
  | none => unfoldPasses symbol limit limit table

/-- Resolves the forced references of several symbols, one after the other, up to the first that
fails. -/
def unfoldEach (limit : Nat) : List Symbol → Table → Except GrammarError Unit × Table
  | [], table => (.ok (), table)
  | symbol :: rest, table =>
    match table.unfold symbol limit with
    | (.error error, table) => (.error error, table)
    | (.ok (), table) => unfoldEach limit rest table

/-- Resolves the forced references of every symbol that was defined with some. No symbol counts as
unresolved afterwards, even if resolving failed. -/
def unfoldAll (table : Table) (limit : Nat) : Except GrammarError Unit × Table :=
  unfoldEach limit table.forced { table with forced := [] }

end Table

end TextGrammar
