import TextGrammar.Ron.Layout

/-!
# Scalars of RON documents

Identifiers, numbers, texts and characters.
-/

namespace TextGrammar.Ron

/-! ## Identifiers -/

/-- Whether a character may begin an identifier. -/
def isNameStart (c : Char) : Bool :=
  c.isAlpha || c = '_'

/-- Whether a character may occur in an identifier. -/
def isNameChar (c : Char) : Bool :=
  c.isAlphanum || c = '_'

/-- Whether a character may occur in an identifier that is marked by `r#`. -/
def isRawNameChar (c : Char) : Bool :=
  isNameChar c || c = '.' || c = '+' || c = '-'

/-- Reads an identifier. One that holds `.`, `+` or `-` has to be marked by `r#`; an `r` that
begins a raw text is no identifier. -/
def identifier : Reader Text := fun text =>
  match text with
  | ['r'] => none
  | 'r' :: '"' :: _ => none
  | 'r' :: '#' :: rest =>
    match rest.takeWhile isRawNameChar with
    | [] => none
    | name => some (name, rest.dropWhile isRawNameChar)
  | c :: _ =>
    if isNameStart c then
      let rest := text.dropWhile isNameChar
      if c ≠ 'r' && rest.head?.any isRawNameChar then none
      else some (text.takeWhile isNameChar, rest)
    else none
  | [] => none

/-- Whether a given word comes next and no identifier character follows it. -/
def meetsWord (word : Text) : Reader Bool := fun text =>
  match word.isPrefixOf? text with
  | some rest => some (!rest.head?.any isNameChar, text)
  | none => some (false, text)

/-- Takes a given word if it comes next as a whole, and tells whether it did. -/
def takeWord? (word : Text) : Reader Bool := do
  if ← meetsWord word then take? word else return false

/-! ## Numbers -/

/-- The value of a hexadecimal digit. -/
def hexDigit? (c : Char) : Option Nat :=
  if c.isDigit then some (c.toNat - '0'.toNat)
  else if 'a' ≤ c ∧ c ≤ 'f' then some (c.toNat - 'a'.toNat + 10)
  else if 'A' ≤ c ∧ c ≤ 'F' then some (c.toNat - 'A'.toNat + 10)
  else none

/-- Whether a character belongs to the digits of an integer. -/
def isDigitChar (c : Char) : Bool :=
  (hexDigit? c).isSome || c = '_'

/-- The value of digits in a base, with `value` for the digits before them. An underscore between
them does not count. -/
def valueOfDigits (base value : Nat) : Text → Option Nat
  | [] => some value
  | '_' :: rest => valueOfDigits base value rest
  | c :: rest => do
    let digit ← hexDigit? c
    if digit < base then valueOfDigits base (value * base + digit) rest else none

/-- Reads an integer without sign that is at most `limit`. `0x`, `0b` and `0o` change the base. -/
def integerUpTo (limit : Nat) : Reader Nat := fun text =>
  let (base, digits) : Nat × Text :=
    match text with
    | '0' :: 'x' :: rest => (16, rest)
    | '0' :: 'b' :: rest => (2, rest)
    | '0' :: 'o' :: rest => (8, rest)
    | _ => (10, text)
  match digits.takeWhile isDigitChar with
  | [] => none
  | '_' :: _ => none
  | run => do
    let value ← valueOfDigits base 0 run
    if value ≤ limit then some (value, digits.dropWhile isDigitChar) else none

/-- Reads a 64-bit integer without sign. -/
def unsigned : Reader Nat :=
  integerUpTo 0xFFFFFFFFFFFFFFFF

/-- Reads a 64-bit integer, with or without a sign. -/
def signedOrNot : Reader Unit := fun text =>
  match text with
  | '+' :: rest => (integerUpTo 0x7FFFFFFFFFFFFFFF rest).map fun (_, rest) => ((), rest)
  | '-' :: rest => (integerUpTo 0x8000000000000000 rest).map fun (_, rest) => ((), rest)
  | _ => (unsigned text).map fun (_, rest) => ((), rest)

/-- Whether a character belongs to a decimal fraction. -/
def isFractionChar (c : Char) : Bool :=
  c.isDigit || c = 'e' || c = 'E' || c = '.' || c = '+' || c = '-'

/-- A text without the sign it may begin with. -/
def dropSign : Text → Text
  | '+' :: rest => rest
  | '-' :: rest => rest
  | text => text

/-- Whether a text is a decimal fraction: a sign, digits with a point among or around them, and an
exponent, of which only the digits are required. -/
def isFraction (text : Text) : Bool :=
  let unsignedPart := dropSign text
  let whole := unsignedPart.takeWhile Char.isDigit
  let behindWhole := unsignedPart.dropWhile Char.isDigit
  let (decimals, tail) : Text × Text :=
    match behindWhole with
    | '.' :: rest => (rest.takeWhile Char.isDigit, rest.dropWhile Char.isDigit)
    | rest => ([], rest)
  let exponentFits :=
    match tail with
    | [] => true
    | c :: rest =>
      let digits := dropSign rest
      (c = 'e' || c = 'E') && !digits.isEmpty && digits.all Char.isDigit
  !(whole.isEmpty && decimals.isEmpty) && exponentFits

/-- Reads a decimal fraction. -/
def fraction : Reader Unit := do
  unless isFraction (← takeRun isFractionChar) do failure

/-- Reads any number: a fraction where more characters belong to one than to an integer, else an
integer or, if its value does not fit, a fraction all the same. -/
def number : Reader Unit := fun text =>
  let body := dropSign text
  if (body.takeWhile isDigitChar).length < (body.takeWhile isFractionChar).length then
    fraction text
  else signedOrNot text <|> fraction text

/-! ## Texts and characters -/

/-- The value of hexadecimal digits as a character. -/
def charOfHex (digits : Text) : Option Char := do
  let value ← digits.foldlM (fun value c => (hexDigit? c).map (value * 16 + ·)) 0
  if value.isValidChar then some (Char.ofNat value) else none

/-- Reads what follows a backslash. -/
def escape : Reader Char := fun text =>
  match text with
  | '\'' :: rest => some ('\'', rest)
  | '"' :: rest => some ('"', rest)
  | '\\' :: rest => some ('\\', rest)
  | 'n' :: rest => some ('\n', rest)
  | 'r' :: rest => some ('\r', rest)
  | 't' :: rest => some ('\t', rest)
  | '0' :: rest => some ('\x00', rest)
  | 'x' :: high :: low :: rest => (charOfHex [high, low]).map (·, rest)
  | 'u' :: '{' :: rest =>
    let digits := rest.takeWhile (· ≠ '}')
    if 1 ≤ digits.length ∧ digits.length ≤ 6 ∧ digits.length < rest.length then
      (charOfHex digits).map (·, rest.drop (digits.length + 1))
    else none
  | _ => none

/-- Reads a quoted text behind its opening quote. Every step takes a character, so the length of
the text is enough `fuel`. -/
def quotedBody : Nat → Reader Text
  | 0 => failure
  | fuel + 1 => fun text =>
    match text with
    | [] => none
    | '"' :: rest => some ([], rest)
    | '\\' :: rest => do
      let (c, rest) ← escape rest
      let (body, rest) ← quotedBody fuel rest
      some (c :: body, rest)
    | c :: rest => do
      let (body, rest) ← quotedBody fuel rest
      some (c :: body, rest)

/-- Reads a text up to a given end. -/
def upTo (ending : Text) : Reader Text := fun text =>
  match ending.isPrefixOf? text, text with
  | some rest, _ => some ([], rest)
  | none, c :: rest => (upTo ending rest).map fun (body, rest) => (c :: body, rest)
  | none, [] => none

/-- Reads a text: `"…"` with escapes, or `r"…"` without, in which any number of `#` may stand
around the quotes. -/
def text : Reader Text := do
  if ← take? ['"'] then
    quotedBody (← get).length
  else
    take ['r']
    let hashes ← takeRun (· = '#')
    take ['"']
    upTo ('"' :: hashes)

/-- Reads a character in single quotes. -/
def character : Reader Unit := fun text =>
  match text with
  | '\'' :: '\\' :: rest => do
    let (_, rest) ← escape rest
    let ((), rest) ← take ['\''] rest
    some ((), rest)
  | '\'' :: c :: '\'' :: rest => if c = '\'' then none else some ((), rest)
  | _ => none

end TextGrammar.Ron
