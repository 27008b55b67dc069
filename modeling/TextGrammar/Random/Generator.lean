import TextGrammar.Random.Source
import TextGrammar.Random.ChaCha

/-!
# Seeded generators

A generator is a place in the ChaCha stream of a key that a 64-bit seed determines. It chooses a
number below a length by multiplying the next number of the stream with the length and taking the
upper half of the product; products whose lower half lies beyond a multiple of the length are
passed over, so that all choices are equally likely.
-/

namespace TextGrammar

/-! ## Keys from seeds -/

namespace Seed

/-- The state of the key schedule after a given one. -/
def step (state : UInt64) : UInt64 :=
  state * 6364136223846793005 + 11634580027462260723

/-- The key word of a state: its upper bits, mixed and rotated by the topmost five. -/
def word (state : UInt64) : UInt32 :=
  let x := (((state >>> 18) ^^^ state) >>> 27).toUInt32
  let amount := (state >>> 59).toUInt32
  (x >>> amount) ||| (x <<< (32 - amount))

/-- The words of the `n` states after a given one. -/
def words : Nat → UInt64 → List UInt32
  | 0, _ => []
  | n + 1, state => word (step state) :: words n (step state)

theorem length_words (n : Nat) (state : UInt64) : (words n state).length = n := by
  induction n generalizing state with
  | zero => rfl
  | succ n ih => simp [words, ih]

/-- The key of a seed. -/
def key (seed : UInt64) : ChaCha.Key :=
  ⟨(words 8 seed).toArray, by simp [length_words]⟩

end Seed

/-! ## The stream -/

/-- A place in the stream of a key. -/
structure Generator where
  key : ChaCha.Key
  /-- The number of the first block that has not been read from. -/
  block : UInt64
  /-- What is left of the block before it. -/
  pending : List UInt64
deriving DecidableEq

namespace Generator

/-- The generator of a seed. -/
def ofSeed (seed : UInt64) : Generator :=
  ⟨Seed.key seed, 0, []⟩

/-- The next number of the stream. -/
def next (g : Generator) : UInt64 × Generator :=
  match g.pending with
  | value :: rest => (value, { g with pending := rest })
  | [] =>
    let values := ChaCha.blockValues g.key g.block
    (values.headD 0, { g with block := g.block + 1, pending := values.tail })

/-! ## Choices -/

/-- The largest lower half of a product that is accepted for a length: one less than the length
shifted to fill 64 bits. -/
def zone (length : Nat) : Nat :=
  (length <<< (63 - length.log2)) - 1

/-- How many values the stream can take. -/
def range : Nat :=
  0x10000000000000000

/-- Draws until the lower half of a product is accepted, and gives the upper half. At least half
of all products are accepted, so the number of attempts is not reached in practice; the last
attempt is accepted as it is. -/
def draw (length : Nat) : Nat → Generator → Nat × Generator
  | 0, g =>
    let (value, g) := g.next
    (value.toNat * length / range, g)
  | attempts + 1, g =>
    let (value, g) := g.next
    let product := value.toNat * length
    if product % range ≤ zone length then (product / range, g)
    else draw length attempts g

/-- How many products may be refused for one choice. -/
def maxRefusals : Nat :=
  4096

/-- Chooses a number below a length. -/
def pick (g : Generator) (length : Nat) : Nat × Generator :=
  draw length maxRefusals g

theorem product_div_lt (value : UInt64) {length : Nat} (h : 0 < length) :
    value.toNat * length / range < length := by
  rw [Nat.div_lt_iff_lt_mul (by decide), Nat.mul_comm length]
  exact Nat.mul_lt_mul_of_pos_right value.toNat_lt h

theorem draw_lt {length : Nat} (h : 0 < length) (attempts : Nat) (g : Generator) :
    (draw length attempts g).1 < length := by
  induction attempts generalizing g with
  | zero => exact product_div_lt _ h
  | succ n ih =>
    unfold draw
    simp only
    split
    · exact product_div_lt _ h
    · exact ih _

instance : SeededSource Generator where
  pick := pick
  ofSeed := ofSeed

instance : LawfulRandomSource Generator where
  pick_lt g _ h := draw_lt h _ g

end Generator

end TextGrammar
