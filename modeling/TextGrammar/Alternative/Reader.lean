import TextGrammar.Alternative.Basic

/-!
# Reading alternatives

`$name` and `${name}` are references, and a `>` directly before one makes it forced. Everything
else is literal text, a lone `$` or `>` included.
-/

namespace TextGrammar

/-- The reference a text begins with, and the text after it. The name in the plain form is as long
as it can be; in the braced form it is all of what the braces hold. -/
def readReference : Text → Option (Symbol × Text)
  | '$' :: '{' :: rest =>
    match rest.takeWhile isIdentifierChar, rest.dropWhile isIdentifierChar with
    | c :: identifier, '}' :: after => some (Symbol.ofIdentifier (c :: identifier), after)
    | _, _ => none
  | '$' :: rest =>
    match rest.takeWhile isIdentifierChar, rest.dropWhile isIdentifierChar with
    | c :: identifier, after => some (Symbol.ofIdentifier (c :: identifier), after)
    | [], _ => none
  | _ => none

/-- The reference, forced or not, that a text begins with as a segment, and the text after it. -/
def readReferenceSegment : Text → Option (Segment × Text)
  | '>' :: rest => (readReference rest).map fun (symbol, after) => (.forced symbol, after)
  | text => (readReference text).map fun (symbol, after) => (.ref symbol, after)

theorem length_dropWhile_le (p : Char → Bool) (text : Text) :
    (text.dropWhile p).length ≤ text.length :=
  (List.dropWhile_sublist p).length_le

theorem length_lt_of_readReference {text after : Text} {symbol : Symbol}
    (h : readReference text = some (symbol, after)) : after.length < text.length := by
  unfold readReference at h
  split at h
  · rename_i rest
    have hle := length_dropWhile_le isIdentifierChar rest
    split at h
    · rename_i hdrop
      simp only [Option.some.injEq, Prod.mk.injEq] at h
      rw [hdrop] at hle
      simp only [List.length_cons] at hle ⊢
      rw [← h.2]
      omega
    · simp at h
  · rename_i rest _
    have hle := length_dropWhile_le isIdentifierChar rest
    split at h
    · simp only [Option.some.injEq, Prod.mk.injEq] at h
      rw [← h.2]
      simp only [List.length_cons]
      omega
    · simp at h
  · simp at h

theorem length_lt_of_readReferenceSegment {text after : Text} {segment : Segment}
    (h : readReferenceSegment text = some (segment, after)) : after.length < text.length := by
  unfold readReferenceSegment at h
  split at h
  all_goals
    simp only [Option.map_eq_some_iff, Prod.mk.injEq, Prod.exists] at h
    obtain ⟨symbol, tail, hread, _, rfl⟩ := h
    have := length_lt_of_readReference hread
  · simp only [List.length_cons]
    omega
  · exact this

/-- The segments of a text, read from left to right. -/
def readSegments : Text → List Segment
  | [] => []
  | c :: rest =>
    match _h : readReferenceSegment (c :: rest) with
    | some (segment, after) => segment :: readSegments after
    | none => Segment.attach (.literal [c]) (readSegments rest)
termination_by text => text.length
decreasing_by
  · exact length_lt_of_readReferenceSegment _h
  · simp

/-- The alternative that a text describes. Whitespace at its ends does not count. -/
def Alternative.parse (text : Text) : Alternative :=
  ⟨readSegments text.trim⟩

end TextGrammar
