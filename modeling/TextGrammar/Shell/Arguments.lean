import TextGrammar.Text.Basic

/-!
# Arguments of the shell

The shell is told on its command line where the grammar and the configuration lie and what seed to
begin with.
-/

namespace TextGrammar.Shell

/-- Reads a number of at most `limit`: decimal digits, with or without a `+` in front. -/
def parseNumber (limit : Nat) (text : Text) : Option Nat :=
  let digits := match text with
    | '+' :: rest => rest
    | _ => text
  if digits.isEmpty || !digits.all Char.isDigit then none
  else
    let value := digits.foldl (fun value c => value * 10 + (c.toNat - '0'.toNat)) 0
    if value ≤ limit then some value else none

/-- The greatest seed and the greatest count. -/
def maxNumber : Nat :=
  0xFFFFFFFFFFFFFFFF

/-- Reads a seed. -/
def parseSeed (text : Text) : Option UInt64 :=
  (parseNumber maxNumber text).map UInt64.ofNat

/-- What the command line asks for. -/
structure Options where
  grammar : Option Text
  config : Option Text
  seed : Option UInt64
deriving DecidableEq, Repr

/-- Why a command line is refused. -/
inductive ArgumentError where
  | invalidSeed (text : Text)
  | unknownArgument (text : Text)
deriving DecidableEq, Repr

/-- The description of an argument error. -/
def ArgumentError.message : ArgumentError → String
  | invalidSeed text => "Invalid seed: " ++ String.ofList text
  | unknownArgument text => "Unknown argument: " ++ String.ofList text

/-- Reads the options behind those that were read before; of an option given twice the last one
counts. -/
def readOptions (options : Options) : List Text → Except ArgumentError Options
  | [] => .ok options
  | [argument] => .error (.unknownArgument argument)
  | argument :: value :: rest =>
    if argument = "--grammar".toList then
      readOptions { options with grammar := some value } rest
    else if argument = "--config".toList then
      readOptions { options with config := some value } rest
    else if argument = "--seed".toList then
      match parseSeed value with
      | some seed => readOptions { options with seed := some seed } rest
      | none => .error (.invalidSeed value)
    else .error (.unknownArgument argument)

/-- Whether a command line asks for the usage: it is empty, or begins with a help option. -/
def asksUsage : List Text → Bool
  | [] => true
  | first :: _ => first = "--help".toList || first = "-h".toList

end TextGrammar.Shell
