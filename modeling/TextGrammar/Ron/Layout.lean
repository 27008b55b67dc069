import TextGrammar.Text.Basic

/-!
# Layout of RON documents

RON is a notation for structures with named fields. Spaces, tabs and line ends may stand between any
two of its tokens, and so may comments: `//` up to the end of the line, and `/*` up to its `*/`, one
inside the other.
-/

namespace TextGrammar.Ron

/-- A reader takes a part of the text off its beginning, or refuses the text. -/
abbrev Reader (α : Type) := StateT Text Option α

/-- Where a reader of layout stands. -/
inductive Gap where
  /-- Between comments. -/
  | blank
  /-- In a comment up to the end of the line. -/
  | line
  /-- In a comment up to `*/`, inside of `depth` others. -/
  | block (depth : Nat)
deriving DecidableEq, Repr

/-- Whether a character is layout outside of comments. -/
def isBlank (c : Char) : Bool :=
  c = ' ' || c = '\t' || c = '\n' || c = '\r'

/-- What is left behind the layout a text begins with; nothing if a comment does not end, or if a
`/` begins none. -/
def skipGap : Gap → Text → Option Text
  | .blank, '/' :: '/' :: rest => skipGap .line rest
  | .blank, '/' :: '*' :: rest => skipGap (.block 0) rest
  | .blank, '/' :: _ => none
  | .blank, c :: rest => if isBlank c then skipGap .blank rest else some (c :: rest)
  | .blank, [] => some []
  | .line, c :: rest => if c = '\n' then skipGap .blank rest else skipGap .line rest
  | .line, [] => some []
  | .block depth, '/' :: '*' :: rest => skipGap (.block (depth + 1)) rest
  | .block 0, '*' :: '/' :: rest => skipGap .blank rest
  | .block (depth + 1), '*' :: '/' :: rest => skipGap (.block depth) rest
  | .block depth, _ :: rest => skipGap (.block depth) rest
  | .block _, [] => none

/-- Passes over layout. -/
def gap : Reader Unit := fun text =>
  (skipGap .blank text).map ((), ·)

/-- The next character, left in place. -/
def peek : Reader Char := fun text =>
  text.head?.map (·, text)

/-- Takes a given text if it comes next, and tells whether it did. -/
def take? (expected : Text) : Reader Bool := fun text =>
  match expected.isPrefixOf? text with
  | some rest => some (true, rest)
  | none => some (false, text)

/-- Takes a given text, which has to come next. -/
def take (expected : Text) : Reader Unit := do
  unless ← take? expected do failure

/-- Takes a comma with layout around it, if one comes next, and tells whether it did. -/
def comma : Reader Bool := do
  gap
  if ← take? [','] then
    gap
    return true
  return false

/-- Tries a reader; where it refuses, the text is left as it was. -/
def attempt {α : Type} (reader : Reader α) : Reader (Option α) := fun text =>
  match reader text with
  | some (a, rest) => some (some a, rest)
  | none => some (none, text)

/-- Takes the longest run of characters of a class. -/
def takeRun (p : Char → Bool) : Reader Text := fun text =>
  some (text.takeWhile p, text.dropWhile p)

end TextGrammar.Ron
