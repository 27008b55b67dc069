import TextGrammar.Alternative.Basic

/-!
# Writing alternatives

An alternative is written in the form it is read from. A reference is braced where an identifier
character follows it, since the name would otherwise take that character in.
-/

namespace TextGrammar

/-- Whether a literal that begins with an identifier character comes first. -/
def beginsGlued : List Segment → Bool
  | .literal (c :: _) :: _ => isIdentifierChar c
  | _ => false

/-- The written form of a reference, braced on demand. -/
def writeReference (braced : Bool) (symbol : Symbol) : Text :=
  if braced then '$' :: '{' :: (symbol.identifier ++ ['}']) else symbol.name

/-- The written form of segments. -/
def writeSegments : List Segment → Text
  | [] => []
  | .literal text :: rest => text ++ writeSegments rest
  | .ref symbol :: rest => writeReference (beginsGlued rest) symbol ++ writeSegments rest
  | .forced symbol :: rest =>
    '>' :: (writeReference (beginsGlued rest) symbol ++ writeSegments rest)

/-- The written form of an alternative. -/
def Alternative.print (a : Alternative) : Text :=
  writeSegments a.segments

end TextGrammar
