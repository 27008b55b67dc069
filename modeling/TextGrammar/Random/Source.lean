/-!
# Sources of choices

Whoever expands a grammar asks a source for the number of the alternative to take. A source is a
state that answers and moves on, so a run is a function of the state that it begins with.
-/

namespace TextGrammar

/-- A type of states that choose among alternatives. -/
class RandomSource (σ : Type) where
  /-- Chooses a number below a length, and gives the state after the choice. -/
  pick : σ → Nat → Nat × σ

/-- A source whose choices are below the length they are asked for. -/
class LawfulRandomSource (σ : Type) [RandomSource σ] : Prop where
  pick_lt (source : σ) (length : Nat) : 0 < length → (RandomSource.pick source length).1 < length

/-- A source that can begin with a seed. -/
class SeededSource (σ : Type) extends RandomSource σ where
  /-- The source at its beginning with a seed. -/
  ofSeed : UInt64 → σ

/-! ## Scripts -/

/-- A source that takes its choices from a list, over and over. -/
structure Script where
  choices : Array Nat
  next : Nat
deriving DecidableEq, Repr

namespace Script

/-- The script of a list of choices, at its beginning. -/
def ofList (choices : List Nat) : Script :=
  ⟨choices.toArray, 0⟩

/-- Each choice is the next entry modulo the length; a script without entries chooses 0. -/
def pick (script : Script) (length : Nat) : Nat × Script :=
  let entry := script.choices.getD (script.next % script.choices.size) 0
  (entry % length, { script with next := script.next + 1 })

instance : RandomSource Script := ⟨Script.pick⟩

instance : LawfulRandomSource Script where
  pick_lt _ _ h := Nat.mod_lt _ h

end Script

/-! ## Counting -/

/-- A source that counts the choices it has made. -/
structure Counted (σ : Type) where
  source : σ
  picks : Nat
deriving DecidableEq, Repr

/-- A source that has not been asked yet. -/
def Counted.start {σ : Type} (source : σ) : Counted σ :=
  ⟨source, 0⟩

instance {σ : Type} [RandomSource σ] : RandomSource (Counted σ) where
  pick counted length :=
    let (choice, source) := RandomSource.pick counted.source length
    (choice, ⟨source, counted.picks + 1⟩)

instance {σ : Type} [RandomSource σ] [LawfulRandomSource σ] : LawfulRandomSource (Counted σ) where
  pick_lt counted length h := LawfulRandomSource.pick_lt counted.source length h

end TextGrammar
