import TextGrammar.Symbol

/-!
# Alternatives

An alternative is one choice of a production: a sequence of literal texts and references. In the
canonical form no literal is empty and no two literals are adjacent; `Alternative.ofSegments`
brings any sequence into it, and `Alternative.splice` puts one alternative into another.
-/

namespace TextGrammar

/-- A piece of an alternative. -/
inductive Segment where
  /-- A text that is produced as it is. -/
  | literal (text : Text)
  /-- A reference that is expanded anew wherever it occurs: `$name` or `${name}`. -/
  | ref (symbol : Symbol)
  /-- A reference that is resolved when the grammar is compiled: `>$name` or `>${name}`. -/
  | forced (symbol : Symbol)
deriving DecidableEq, Repr, Inhabited

namespace Segment

/-- The symbol a segment refers to. -/
def reference? : Segment → Option Symbol
  | literal _ => none
  | ref symbol => some symbol
  | forced symbol => some symbol

/-- The symbol a segment refers to by force. -/
def forced? : Segment → Option Symbol
  | forced symbol => some symbol
  | _ => none

/-- Puts a segment in front of others: an empty literal vanishes, and a literal in front of a
literal is joined with it. -/
def attach : Segment → List Segment → List Segment
  | literal [], rest => rest
  | literal text, literal next :: rest => literal (text ++ next) :: rest
  | segment, rest => segment :: rest

end Segment

/-- One choice of a production. -/
structure Alternative where
  segments : List Segment
deriving DecidableEq, Repr, Inhabited

namespace Alternative

/-- The alternative with given segments, with empty literals left out and adjacent ones joined. -/
def ofSegments (segments : List Segment) : Alternative :=
  ⟨segments.foldr Segment.attach []⟩

/-- Whether an alternative has no segments. -/
def isEmpty (a : Alternative) : Bool :=
  a.segments.isEmpty

/-- The symbols an alternative refers to, in order, forced or not. -/
def references (a : Alternative) : List Symbol :=
  a.segments.filterMap Segment.reference?

/-- The symbols an alternative refers to by force, in order. -/
def forcedReferences (a : Alternative) : List Symbol :=
  a.segments.filterMap Segment.forced?

/-- The place and the symbol of the leftmost forced reference among some segments. -/
def firstForcedIn? : List Segment → Option (Nat × Symbol)
  | [] => none
  | .forced symbol :: _ => some (0, symbol)
  | _ :: rest => (firstForcedIn? rest).map fun (i, symbol) => (i + 1, symbol)

/-- The place and the symbol of the leftmost forced reference. -/
def firstForced? (a : Alternative) : Option (Nat × Symbol) :=
  firstForcedIn? a.segments

/-- Whether an alternative holds a forced reference. -/
def hasForced (a : Alternative) : Bool :=
  a.firstForced?.isSome

/-- The alternative with the segments of `replacement` in place of the segment at `index`. -/
def splice (a : Alternative) (index : Nat) (replacement : Alternative) : Alternative :=
  ofSegments (a.segments.take index ++ replacement.segments ++ a.segments.drop (index + 1))

end Alternative

end TextGrammar
