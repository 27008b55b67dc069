/-!
# File errors

The causes for which a file cannot be read as text.
-/

namespace TextGrammar

/-- Why a file cannot be read as text. -/
inductive FileError where
  /-- There is no such file. -/
  | notFound
  /-- The path leads to a directory. -/
  | isDirectory
  /-- The path leads through something that is not a directory. -/
  | notDirectory
  /-- The file is not encoded in UTF-8. -/
  | notText
  /-- Any other cause, with its description. -/
  | other (description : String)
deriving DecidableEq, Repr, Inhabited

/-- The description of a file error. -/
def FileError.message : FileError → String
  | notFound => "No such file or directory (os error 2)"
  | isDirectory => "Is a directory (os error 21)"
  | notDirectory => "Not a directory (os error 20)"
  | notText => "stream did not contain valid UTF-8"
  | other description => description

instance : ToString FileError := ⟨FileError.message⟩

end TextGrammar
