import TextGrammar.Symbol

/-!
# Nested groups

The groups of one kind in a statement form a forest. An opening delimiter belongs to the nearest
closing one behind it that is still free; a delimiter without a partner is an ordinary character.
`Forest.ofText` finds the pairs, and `Forest.toText` gives the statement back.
-/

namespace TextGrammar

/-- The two kinds of groups. -/
inductive GroupKind where
  /-- `[…]`, which may be left out. -/
  | optional
  /-- `(…)`, which only holds alternatives together. -/
  | plain
deriving DecidableEq, Repr

namespace GroupKind

/-- The opening delimiter. -/
def opening : GroupKind → Char
  | optional => '['
  | plain => '('

/-- The closing delimiter. -/
def closing : GroupKind → Char
  | optional => ']'
  | plain => ')'

/-- The symbol of the group number `n`. -/
def symbol (kind : GroupKind) (n : Nat) : Symbol :=
  match kind with
  | optional => Symbol.numbered Symbol.optionalStem n
  | plain => Symbol.numbered Symbol.plainStem n

end GroupKind

/-- A text in which the groups of one kind are nested. -/
inductive Forest where
  /-- The end of the text. -/
  | nil
  /-- A character and what follows it. -/
  | char (c : Char) (rest : Forest)
  /-- A group and what follows it. -/
  | group (body rest : Forest)
deriving DecidableEq, Repr, Inhabited

namespace Forest

/-- The text of a forest, with its delimiters. -/
def toText (kind : GroupKind) : Forest → Text
  | nil => []
  | char c rest => c :: toText kind rest
  | group body rest => kind.opening :: (toText kind body ++ kind.closing :: toText kind rest)

/-- One forest followed by another. -/
def append : Forest → Forest → Forest
  | nil, other => other
  | char c rest, other => char c (rest.append other)
  | group body rest, other => group body (rest.append other)

/-- Reads a text from its end. The first forest is what lies in front of the nearest closing
delimiter without a partner so far; the others are what lies behind each of these delimiters,
nearest first. -/
def scan (kind : GroupKind) : Text → Forest × List Forest
  | [] => (nil, [])
  | c :: rest =>
    let (front, behind) := scan kind rest
    if c = kind.opening then
      match behind with
      | after :: outer => (group front after, outer)
      | [] => (char c front, [])
    else if c = kind.closing then (nil, front :: behind)
    else (char c front, behind)

/-- Puts the delimiters that found no partner back as characters. -/
def rejoin (kind : GroupKind) : Forest → List Forest → Forest
  | front, [] => front
  | front, after :: outer => front.append (char kind.closing (rejoin kind after outer))

/-- The forest of the groups of a kind in a text. -/
def ofText (kind : GroupKind) (text : Text) : Forest :=
  let (front, behind) := scan kind text
  rejoin kind front behind

/-- Whether an identifier character comes first. -/
def beginsGlued : Forest → Bool
  | char c _ => isIdentifierChar c
  | _ => false

end Forest

end TextGrammar
