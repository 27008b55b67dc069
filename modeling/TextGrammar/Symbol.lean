import TextGrammar.Text.Basic
import TextGrammar.Unicode.Alphabetic

/-!
# Symbols

A symbol is the name of a production: `$` followed by an identifier. Names that stand for groups
(`$_optgrp0`, `$_grp3`, …) are synthetic.
-/

namespace TextGrammar

/-- Whether a character may occur in an identifier: a letter, an ASCII digit or `_`. -/
def isIdentifierChar (c : Char) : Bool :=
  Unicode.isAlphabetic c || c.isDigit || c = '_'

/-- The name of a production, with its leading `$`. -/
structure Symbol where
  name : Text
deriving DecidableEq, Repr, Inhabited

namespace Symbol

/-- Whether a text is `$` followed by one or more identifier characters. -/
def isName : Text → Bool
  | '$' :: identifier => !identifier.isEmpty && identifier.all isIdentifierChar
  | _ => false

/-- A symbol whose name is well formed. -/
def Valid (symbol : Symbol) : Prop :=
  isName symbol.name = true

instance (symbol : Symbol) : Decidable symbol.Valid :=
  inferInstanceAs (Decidable (isName symbol.name = true))

/-- The symbol with a given name, if the name is well formed. -/
def parse? (text : Text) : Option Symbol :=
  if isName text then some ⟨text⟩ else none

/-- The symbol with a given identifier. -/
def ofIdentifier (identifier : Text) : Symbol :=
  ⟨'$' :: identifier⟩

/-- The name without its `$`. -/
def identifier (symbol : Symbol) : Text :=
  symbol.name.tail

/-- The symbol that a generation starts from, `$s`. -/
def start : Symbol :=
  ofIdentifier ['s']

/-- What the identifiers of optional groups begin with. -/
def optionalStem : Text :=
  ['_', 'o', 'p', 't', 'g', 'r', 'p']

/-- What the identifiers of plain groups begin with. -/
def plainStem : Text :=
  ['_', 'g', 'r', 'p']

/-- The symbol of the group number `n` of a kind with a given stem. -/
def numbered (stem : Text) (n : Nat) : Symbol :=
  ofIdentifier (stem ++ decimal n)

/-- Whether a text is a stem followed by one or more ASCII digits. -/
def isNumbered (stem text : Text) : Bool :=
  match stem.isPrefixOf? text with
  | some number => !number.isEmpty && number.all Char.isDigit
  | none => false

/-- Whether the symbol has the name of a group. -/
def isSynthetic (symbol : Symbol) : Bool :=
  isNumbered ('$' :: optionalStem) symbol.name || isNumbered ('$' :: plainStem) symbol.name

/-- Sorts symbols by their names and keeps one of each. -/
def sortDistinct (symbols : List Symbol) : List Symbol :=
  (symbols.mergeSort fun a b => a.name.notAfter b.name).eraseReps

end Symbol

end TextGrammar
