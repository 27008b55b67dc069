import TextGrammar.Text.Basic

/-!
# JSON texts

Compact JSON: no space between tokens, and in strings only what has to be escaped is escaped.
-/

namespace TextGrammar.Json

/-- A hexadecimal digit in lower case. -/
def hexDigit (n : Nat) : Char :=
  Nat.digitChar n

/-- A character in a string. Quotes, backslashes and control characters are escaped. -/
def escape (c : Char) : Text :=
  match c with
  | '"' => ['\\', '"']
  | '\\' => ['\\', '\\']
  | '\x08' => ['\\', 'b']
  | '\x0c' => ['\\', 'f']
  | '\n' => ['\\', 'n']
  | '\r' => ['\\', 'r']
  | '\t' => ['\\', 't']
  | c =>
    if c.toNat < 0x20 then ['\\', 'u', '0', '0', hexDigit (c.toNat / 16), hexDigit (c.toNat % 16)]
    else [c]

/-- A string. -/
def string (text : Text) : Text :=
  '"' :: (text.flatMap escape ++ ['"'])

/-- A number. -/
def number (n : Nat) : Text :=
  decimal n

/-- A truth value. -/
def bool (b : Bool) : Text :=
  if b then ['t', 'r', 'u', 'e'] else ['f', 'a', 'l', 's', 'e']

/-- An array of written values. -/
def array (values : List Text) : Text :=
  '[' :: (List.intercalate [','] values ++ [']'])

/-- An object of names with written values. -/
def object (fields : List (Text × Text)) : Text :=
  let field (entry : Text × Text) : Text := string entry.1 ++ ':' :: entry.2
  '\x7b' :: (List.intercalate [','] (fields.map field) ++ ['\x7d'])

end TextGrammar.Json
