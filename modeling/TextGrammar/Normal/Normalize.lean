import TextGrammar.Normal.Passes

/-!
# Normalization

The passes are repeated until they change nothing. All but three of the rounds use up a `\`, so the
number of these marks bounds the rounds.
-/

namespace TextGrammar

namespace Normal

/-- Repeats the passes until they change nothing, at most `rounds` times. -/
def settle : Nat → Text → Text
  | 0, text => text
  | rounds + 1, text =>
    let next := passes text
    if next = text then text else settle rounds next

/-- How many rounds a text is given. -/
def rounds (text : Text) : Nat :=
  text.count '\\' + 3

end Normal

/-- The normal form of an expanded text. -/
def normalize (raw : Text) : Text :=
  Normal.settle (Normal.rounds raw) raw

end TextGrammar
