import TextGrammar.Alternative.Reader
import TextGrammar.Alternative.Printer

/-!
# Productions

A production is the ordered list of the alternatives of one symbol. Its content separates them
with `|`.
-/

namespace TextGrammar

/-- The ordered alternatives of a symbol. -/
structure Production where
  alternatives : List Alternative
deriving DecidableEq, Repr, Inhabited

namespace Production

/-- The production that a content describes: one alternative for each piece between `|`. -/
def parse (content : Text) : Production :=
  ⟨(content.splitOn '|').map Alternative.parse⟩

/-- The number of alternatives. -/
def size (p : Production) : Nat :=
  p.alternatives.length

/-- Whether there is no alternative. -/
def isEmpty (p : Production) : Bool :=
  p.alternatives.isEmpty

/-- Whether some alternative holds a forced reference. -/
def hasForced (p : Production) : Bool :=
  p.alternatives.any Alternative.hasForced

/-- The symbols the alternatives refer to by force, in order. -/
def forcedReferences (p : Production) : List Symbol :=
  p.alternatives.flatMap Alternative.forcedReferences

/-- The written form of a production. -/
def print (p : Production) : Text :=
  List.intercalate ['|'] (p.alternatives.map Alternative.print)

end Production

end TextGrammar
