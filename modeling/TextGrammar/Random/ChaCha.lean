/-!
# The ChaCha block function

ChaCha with 12 rounds turns a key of eight words and a block number into sixteen words. Seen as
eight 64-bit numbers, the blocks 0, 1, 2, … are the stream a seeded generator reads.
-/

namespace TextGrammar.ChaCha

/-- The sixteen words that the rounds work on. -/
abbrev State := Vector UInt32 16

/-- The eight words of a key. -/
abbrev Key := Vector UInt32 8

/-- A word rotated to the left. -/
def rotateLeft (x amount : UInt32) : UInt32 :=
  (x <<< amount) ||| (x >>> (32 - amount))

/-- Mixes four words of the state. -/
def quarterRound (s : State) (a b c d : Fin 16) : State :=
  let s := s.set a (s[a] + s[b])
  let s := s.set d (rotateLeft (s[d] ^^^ s[a]) 16)
  let s := s.set c (s[c] + s[d])
  let s := s.set b (rotateLeft (s[b] ^^^ s[c]) 12)
  let s := s.set a (s[a] + s[b])
  let s := s.set d (rotateLeft (s[d] ^^^ s[a]) 8)
  let s := s.set c (s[c] + s[d])
  s.set b (rotateLeft (s[b] ^^^ s[c]) 7)

/-- One round over the columns of the state and one over its diagonals. -/
def doubleRound (s : State) : State :=
  let s := quarterRound s 0 4 8 12
  let s := quarterRound s 1 5 9 13
  let s := quarterRound s 2 6 10 14
  let s := quarterRound s 3 7 11 15
  let s := quarterRound s 0 5 10 15
  let s := quarterRound s 1 6 11 12
  let s := quarterRound s 2 7 8 13
  quarterRound s 3 4 9 14

/-- The state before the rounds: four constants, the key, the block number and two zero words. -/
def initial (key : Key) (block : UInt64) : State :=
  let constants : Vector UInt32 4 := #v[0x61707865, 0x3320646e, 0x79622d32, 0x6b206574]
  let position : Vector UInt32 4 := #v[block.toUInt32, (block >>> 32).toUInt32, 0, 0]
  constants ++ key ++ position

/-- The sixteen words of a block: the state after six double rounds, added to the state before. -/
def block (key : Key) (number : UInt64) : State :=
  let before := initial key number
  Vector.zipWith (· + ·) before (Nat.repeat doubleRound 6 before)

/-- Words in pairs, the low half of each pair first. -/
def pairUp : List UInt32 → List UInt64
  | low :: high :: rest => ((high.toUInt64 <<< 32) ||| low.toUInt64) :: pairUp rest
  | _ => []

/-- The eight numbers of a block. -/
def blockValues (key : Key) (number : UInt64) : List UInt64 :=
  pairUp (block key number).toList

end TextGrammar.ChaCha
