import TextGrammar.Text.Basic

/-!
# Case runs

A case mapping is stored as runs of equally spaced characters that move by one distance, and a
short list of characters whose image has several characters.
-/

namespace TextGrammar.Unicode

/-- The characters `first`, `first + stride`, … up to `last`, the first of which maps to `target`
and each other one to the character as far behind `target` as it is behind `first`. -/
structure CaseRun where
  first : Nat
  last : Nat
  stride : Nat
  target : Nat
deriving DecidableEq, Repr

/-- The image of a code point under a run, if the run holds it. -/
def CaseRun.image? (run : CaseRun) (n : Nat) : Option Nat :=
  if run.first ≤ n ∧ n ≤ run.last ∧ (n - run.first) % run.stride = 0 then
    some (run.target + (n - run.first))
  else none

/-- The image of a character: its expansion, else its place in the first run that holds it, else
the character itself. -/
def mapCase (expansions : List (Nat × List Nat)) (runs : List CaseRun) (c : Char) : Text :=
  match expansions.lookup c.toNat with
  | some image => image.map Char.ofNat
  | none =>
    match runs.findSome? (·.image? c.toNat) with
    | some n => [Char.ofNat n]
    | none => [c]

end TextGrammar.Unicode
