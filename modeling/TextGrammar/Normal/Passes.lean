import TextGrammar.Text.Basic
import TextGrammar.Unicode.Uppercase

/-!
# The passes of normalization

Expanded text holds runs of whitespace and two marks: `^` joins what stands on its two sides, and
`\` makes the next character a capital. Four passes bring it into shape.
-/

namespace TextGrammar.Normal

open Unicode

/-- Whether a character takes no space in front of it. -/
def isPunctuation (c : Char) : Bool :=
  c = '.' || c = ',' || c = ';' || c = ':' || c = '?' || c = '!'

/-- Turns every run of whitespace into one space. `inBlank` tells whether whitespace comes directly
before the text. -/
def collapseFrom (inBlank : Bool) : Text → Text
  | [] => []
  | c :: rest =>
    if isWhitespace c then
      if inBlank then collapseFrom true rest else ' ' :: collapseFrom true rest
    else c :: collapseFrom false rest

/-- Turns every run of whitespace into one space. -/
def collapse (text : Text) : Text :=
  collapseFrom false text

/-- Drops a whitespace character directly in front of punctuation. -/
def stripBeforePunctuation : Text → Text
  | [] => []
  | c :: rest =>
    if isWhitespace c && rest.head?.any isPunctuation then stripBeforePunctuation rest
    else c :: stripBeforePunctuation rest

/-- Whether the first character that is not whitespace is `^`. -/
def meetsJoin (text : Text) : Bool :=
  text.trimStart.head? = some '^'

/-- Drops every `^` and the whitespace on its two sides. `joined` tells whether only whitespace
lies between the text and a `^` before it. -/
def joinFrom (joined : Bool) : Text → Text
  | [] => []
  | c :: rest =>
    if c = '^' then joinFrom true rest
    else if isWhitespace c then
      if joined || meetsJoin rest then joinFrom joined rest else c :: joinFrom joined rest
    else c :: joinFrom false rest

/-- Drops every `^` and the whitespace on its two sides. -/
def join (text : Text) : Text :=
  joinFrom false text

/-- Puts the upper-case form of the next character that is not whitespace in place of a `\`, of
that character and of the whitespace between them. A `\` that no such character follows stays.
`waiting` holds the whitespace behind a `\` that still looks for its character. -/
def shiftCaseFrom : Option Text → Text → Text
  | none, [] => []
  | some blanks, [] => '\\' :: blanks
  | none, c :: rest =>
    if c = '\\' then shiftCaseFrom (some []) rest else c :: shiftCaseFrom none rest
  | some blanks, c :: rest =>
    if isWhitespace c then shiftCaseFrom (some (blanks ++ [c])) rest
    else upperChar c ++ shiftCaseFrom none rest

/-- Replaces every `\` by a capital. -/
def shiftCase (text : Text) : Text :=
  shiftCaseFrom none text

/-- The four passes in their order. -/
def passes (text : Text) : Text :=
  shiftCase (join (stripBeforePunctuation (collapse text)))

end TextGrammar.Normal
