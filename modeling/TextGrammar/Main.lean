import TextGrammar.Random.Generator
import TextGrammar.Shell.Session

/-!
# The shell as a program

Reads files and lines, prints what the session answers, and ends with its exit code.
-/

namespace TextGrammar

open Shell

/-- The cause of a failure to read a file. -/
def FileError.ofIO : IO.Error → FileError
  | .noFileOrDirectory .. => .notFound
  | .inappropriateType _ code _ => if code = 21 then .isDirectory else .notDirectory
  | error => .other (toString error)

/-- Reads the text of a file. -/
def readFile (path : Text) : IO (Except FileError Text) := do
  match ← (IO.FS.readBinFile (String.ofList path)).toBaseIO with
  | .ok bytes => return decode bytes
  | .error error => return .error (FileError.ofIO error)

/-- A generator that no seed was given for. -/
def drawEntropy : IO Generator := do
  let bytes ← IO.getRandomBytes 8
  return Generator.ofSeed (bytes.foldl (fun value byte => value * 256 + byte.toUInt64) 0)

/-- Prints chunks of output. -/
def printChunks (chunks : List Chunk) : IO Unit := do
  for chunk in chunks do
    match chunk with
    | .out text => IO.print text
    | .err text => IO.eprint text
  (← IO.getStdout).flush

/-- Reads bytes up to a line feed or the end of the input, behind those read before. -/
partial def readLine (stdin : IO.FS.Stream) (line : ByteArray) : IO ByteArray := do
  let bytes ← stdin.read 1
  let line := line ++ bytes
  if bytes.isEmpty || bytes.data.contains 10 then return line else readLine stdin line

/-- Answers lines until the session or the input ends, or until a line is no text. -/
partial def converse (stdin : IO.FS.Stream) (session : Session Generator) :
    IO (Next Generator) := do
  printChunks [prompt]
  let bytes ← readLine stdin ByteArray.empty
  if bytes.isEmpty then return .quit
  match decode bytes with
  | .error _ => return .quit
  | .ok line =>
    let (chunks, next) ← answer readFile (← drawEntropy) session line
    printChunks chunks
    match next with
    | .session session => converse stdin session
    | ending => return ending

/-- Runs the shell with the arguments of the command line. -/
def runShell (arguments : List String) : IO UInt32 := do
  let (chunks, beginning) ← start readFile (← drawEntropy) (arguments.map String.toList)
  printChunks chunks
  match beginning with
  | .done code => return UInt32.ofNat code
  | .opened session =>
    let ending ← converse (← IO.getStdin) session
    printChunks ending.lastChunks
    return UInt32.ofNat ending.exitCode

end TextGrammar

/-- The program. -/
def main (arguments : List String) : IO UInt32 :=
  TextGrammar.runShell arguments
