import TextGrammar.Group.Forest

/-!
# Groups as productions

Every group becomes a production of its own, and a reference to it takes its place:

```text
$s = the [blue|red] shoes
```

becomes

```text
$s = the $_optgrp0 shoes;
$_optgrp0 = | $_grp0;
$_grp0 = blue|red
```

Optional groups are replaced first, each by a choice between nothing and a plain group, and then
the plain groups of the whole result. The groups of a kind are numbered in the order in which they
close. Comments stay as they are.
-/

namespace TextGrammar

/-- Whether a statement is a comment: its first character after whitespace is `#`. -/
def isComment (statement : Text) : Bool :=
  statement.trimStart.head? = some '#'

namespace Group

/-- The number of groups around the place behind a character. -/
def depthAfter (depth : Nat) (c : Char) : Nat :=
  if c = '(' ∨ c = '[' then depth + 1
  else if c = ')' ∨ c = ']' then depth - 1
  else depth

/-- The pieces of a text between the `|` at depth zero, for a text that begins at a given depth. -/
def splitTopLevel (depth : Nat) : Text → List Text
  | [] => [[]]
  | c :: rest =>
    if c = '|' ∧ depth = 0 then [] :: splitTopLevel depth rest
    else (splitTopLevel (depthAfter depth c) rest).modifyHead (List.cons c)

/-- Whether a text begins with whitespace. -/
def beginsBlank (text : Text) : Bool :=
  text.head?.any Unicode.isWhitespace

/-- Whether a text ends with whitespace. -/
def endsBlank (text : Text) : Bool :=
  text.getLast?.any Unicode.isWhitespace

/-- Whether every top-level alternative of a body begins with whitespace. Alternatives are trimmed
when they are read, so that whitespace belongs in front of the group. -/
def leadsBlank (body : Text) : Bool :=
  (splitTopLevel 0 body).all beginsBlank

/-- Whether every top-level alternative of a body ends with whitespace, which then belongs behind
the group. -/
def trailsBlank (body : Text) : Bool :=
  (splitTopLevel 0 body).all endsBlank

/-- What stands for a group with a given body: its reference, with the whitespace that the body
gives up. The name is braced where it would otherwise take in the character that follows. -/
def reference (symbol : Symbol) (body : Text) (glued : Bool) : Text :=
  let name :=
    if glued && !trailsBlank body then '$' :: '{' :: (symbol.identifier ++ ['}'])
    else symbol.name
  (if leadsBlank body then [' '] else []) ++ name ++ (if trailsBlank body then [' '] else [])

/-- The production of a group with a given body. -/
def production (kind : GroupKind) (symbol : Symbol) (body : Text) : Text :=
  match kind with
  | .optional => symbol.name ++ [' ', '=', ' ', '|', ' ', '('] ++ body ++ [')']
  | .plain => symbol.name ++ [' ', '=', ' '] ++ body

/-- Replaces the groups of a forest, numbering them from `start`. Gives the text that is left and
the productions of the groups in the order of their numbers. -/
def replace (kind : GroupKind) (start : Nat) : Forest → Text × List Text
  | .nil => ([], [])
  | .char c rest =>
    let (text, minted) := replace kind start rest
    (c :: text, minted)
  | .group body rest =>
    let (inner, before) := replace kind start body
    let symbol := kind.symbol (start + before.length)
    let (text, after) := replace kind (start + before.length + 1) rest
    (reference symbol inner rest.beginsGlued ++ text,
      before ++ production kind symbol inner :: after)

/-- Replaces the groups of a list of statements, numbering them from `start`. -/
def replaceAll (kind : GroupKind) (start : Nat) : List Text → List Text × List Text
  | [] => ([], [])
  | statement :: rest =>
    let (text, minted) :=
      if isComment statement then (statement, [])
      else replace kind start (Forest.ofText kind statement)
    let (texts, more) := replaceAll kind (start + minted.length) rest
    (text :: texts, minted ++ more)

/-- Replaces the groups of one kind in a source; their productions follow at its end. -/
def desugarKind (kind : GroupKind) (source : Text) : Text :=
  let (statements, minted) := replaceAll kind 0 (source.splitOn ';')
  List.intercalate [';'] statements ++ minted.flatMap fun production => ';' :: '\n' :: production

end Group

/-- A source with its groups replaced by productions. -/
def desugar (source : Text) : Text :=
  Group.desugarKind .plain (Group.desugarKind .optional source)

end TextGrammar
