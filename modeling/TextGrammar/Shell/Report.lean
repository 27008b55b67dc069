import TextGrammar.Engine.Basic
import TextGrammar.Unicode.Lowercase
import TextGrammar.Unicode.Numeric

/-!
# Variety reports

How varied the sentences of a grammar are: how many differ, how long they are, and which words come
up most. A word is what stands between whitespace, without the characters at its two ends that are
neither letters nor numbers, in lower case; words of three bytes or less do not count.

Failures are counted with 31 bits and the occurrences of a word with 32. A run that would count
further crashes.
-/

namespace TextGrammar.Shell

open Unicode

/-! ## Words -/

/-- Whether a character is a letter or a number. -/
def isAlphanumeric (c : Char) : Bool :=
  isAlphabetic c || isNumeric c

/-- A piece of a sentence as a word. -/
def cleanWord (piece : Text) : Text :=
  let isEdge (c : Char) : Bool := !isAlphanumeric c
  lowerText ((piece.dropWhile isEdge).reverse.dropWhile isEdge).reverse

/-- The words of a sentence that count. -/
def wordsOf (sentence : Text) : List Text :=
  (sentence.words.map cleanWord).filter fun word => 3 < word.utf8Size

/-- The words of all sentences that count. -/
def allWords (sentences : List Text) : List Text :=
  sentences.flatMap wordsOf

/-- The most occurrences of a word that can be counted. -/
def maxOccurrences : Nat :=
  UInt32.size - 1

/-- Each different word with the number of its occurrences, if all of them can be counted. -/
def wordCounts (words : List Text) : Except Crash (List (Text × Nat)) :=
  let counts := words.eraseDups.map fun word => (word, words.count word)
  if counts.all fun entry => entry.2 ≤ maxOccurrences then .ok counts else .error .counterOverflow

/-- Whether one counted word stands before another: the more frequent one first, and of two equally
frequent ones the one that comes first in the order of code points. -/
def ranksBefore (a b : Text × Nat) : Bool :=
  b.2 < a.2 || (a.2 = b.2 && Text.notAfter a.1 b.1)

/-- Counted words, best first. -/
def ranking (counts : List (Text × Nat)) : List (Text × Nat) :=
  counts.mergeSort ranksBefore

/-- How many words are shown. -/
def shownWords : Nat :=
  10

/-- The words that are shown, best first. -/
def topWords (counts : List (Text × Nat)) : List (Text × Nat) :=
  (ranking counts).take shownWords

/-! ## Sentences -/

/-- The quotient of two numbers, rounded to the nearest number; a half goes to the even one. -/
def roundDiv (n d : Nat) : Nat :=
  let quotient := n / d
  let twice := 2 * (n % d)
  if twice < d ∨ (twice = d ∧ quotient % 2 = 0) then quotient else quotient + 1

/-- The average number of bytes of some sentences; 0 if there are none. -/
def averageSize (sentences : List Text) : Nat :=
  if sentences.isEmpty then 0
  else roundDiv (Text.utf8Size sentences.flatten) sentences.length

/-- The number of different sentences. -/
def uniqueCount (sentences : List Text) : Nat :=
  sentences.eraseDups.length

/-! ## Batches -/

/-- The sentences of a number of generations, and how many of these failed. -/
structure Batch where
  sentences : List Text
  errors : Nat
deriving DecidableEq, Repr

/-- The most failures that can be counted. -/
def maxErrors : Nat :=
  UInt32.size / 2 - 1

section Batches

variable {σ : Type} [RandomSource σ]

/-- Runs a number of generations, failing ones included, after those of `earlier`, whose sentences
are held last first. -/
def runBatch (engine : Engine σ) (earlier : Batch) : Nat → Except Crash (Batch × Engine σ)
  | 0 => .ok ({ earlier with sentences := earlier.sentences.reverse }, engine)
  | count + 1 =>
    match engine.generate with
    | (.ok text, engine) =>
      runBatch engine { earlier with sentences := text :: earlier.sentences } count
    | (.error _, engine) =>
      if earlier.errors < maxErrors then
        runBatch engine { earlier with errors := earlier.errors + 1 } count
      else .error .counterOverflow

/-- Runs a number of generations, failing ones included. Room for all the sentences is made before
the first is generated. -/
def batch (engine : Engine σ) (count : Nat) : Except Crash (Batch × Engine σ) :=
  if count ≤ Engine.maxTexts then runBatch engine ⟨[], 0⟩ count else .error .capacityOverflow

end Batches

/-! ## Lines -/

/-- The lines about all the sentences. -/
def totalLines (batch : Batch) : List String :=
  let total := batch.sentences.length
  let errors := batch.errors
  let unique := uniqueCount batch.sentences
  let average := averageSize batch.sentences
  ["", s!"=== Bulk Generation: {total} sentences ({errors} errors) ===", "",
    s!"Unique sentences: {unique} / {total}",
    s!"Average length: {average} chars"]

/-- The line about a counted word. -/
def wordLine (entry : Text × Nat) : String :=
  let count := entry.2
  "  " ++ String.ofList entry.1 ++ s!": {count}"

/-- The lines about the words that are shown. -/
def wordLines (top : List (Text × Nat)) : List String :=
  ["", "Top 10 words:"] ++ top.map wordLine

/-- The lines about the first sentence. -/
def sampleLines : List Text → List String
  | [] => []
  | first :: _ => ["", "Sample sentence:", "  " ++ String.ofList first]

/-- The lines of the report about a batch. They break off if a word cannot be counted. -/
def reportLines (batch : Batch) : List String × Option Crash :=
  match wordCounts (allWords batch.sentences) with
  | .error crash => (totalLines batch, some crash)
  | .ok counts =>
    (totalLines batch ++ wordLines (topWords counts) ++ sampleLines batch.sentences ++ [""], none)

end TextGrammar.Shell
