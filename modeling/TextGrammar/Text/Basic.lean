import TextGrammar.Unicode.Whitespace

/-!
# Texts

A text is a list of characters. This file holds the operations that the grammar language is read
with, besides those that all lists have: trimming, cutting at the first separator
(`Text.splitFirst?`), splitting into words, and putting a text on one line.
-/

namespace TextGrammar

/-- A text: a sequence of characters. -/
abbrev Text := List Char

namespace Text

open Unicode

/-! ## Trimming -/

/-- A text without the whitespace it begins with. -/
def trimStart (text : Text) : Text :=
  text.dropWhile isWhitespace

/-- A text without the whitespace it ends with. -/
def trimEnd (text : Text) : Text :=
  (text.reverse.dropWhile isWhitespace).reverse

/-- A text without the whitespace at its two ends. -/
def trim (text : Text) : Text :=
  text.trimStart.trimEnd

/-! ## Splitting -/

/-- The parts of a text before and after the first occurrence of a separator. -/
def splitFirst? (separator : Char) (text : Text) : Option (Text × Text) :=
  match text.dropWhile (· ≠ separator) with
  | [] => none
  | _ :: after => some (text.takeWhile (· ≠ separator), after)

/-- The non-empty pieces of a text between whitespace. -/
def words (text : Text) : List Text :=
  (text.splitOnP isWhitespace).filter (· ≠ [])

/-! ## Lines -/

/-- A space in place of a line break. -/
def spaceForBreak (c : Char) : Char :=
  if c = '\r' ∨ c = '\n' then ' ' else c

/-- A text on one line: each of its line breaks is a space. -/
def onOneLine (text : Text) : Text :=
  text.map spaceForBreak

/-! ## Measures -/

/-- The number of bytes of a text in UTF-8. -/
def utf8Size : Text → Nat
  | [] => 0
  | c :: rest => c.utf8Size + utf8Size rest

/-! ## Order -/

/-- Whether a text comes before another or is equal to it, character by character in code point
order. That is also the order of the bytes of their UTF-8 forms. -/
def notAfter : Text → Text → Bool
  | [], _ => true
  | _ :: _, [] => false
  | a :: as, b :: bs => a.toNat < b.toNat || (a = b && notAfter as bs)

end Text

/-- The decimal digits of a number. -/
def decimal (n : Nat) : Text :=
  Nat.toDigits 10 n

end TextGrammar
