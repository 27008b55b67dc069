import TextGrammar.Text.Basic
import TextGrammar.Files.Error

/-!
# Directories

A directory tree in memory, and what reading a path in it gives.

* `Directory.read` follows a path from the root of the tree, component by component;
* `decode` turns the bytes of a file into text.
-/

namespace TextGrammar

/-- The text that bytes encode in UTF-8. -/
def decode (bytes : ByteArray) : Except FileError Text :=
  match String.fromUTF8? bytes with
  | some text => .ok text.toList
  | none => .error .notText

/-- A tree of files and folders. Paths are lists of names from the root. -/
structure Directory where
  files : List (List Text × ByteArray)
  folders : List (List Text)

namespace Directory

/-- The tree without files. -/
def empty : Directory :=
  ⟨[], []⟩

/-- The names in a path. -/
def components (path : Text) : List Text :=
  (path.splitOn '/').filter fun name => name ≠ [] ∧ name ≠ ['.']

/-- Removes a file; its folder stays. -/
def delete (directory : Directory) (path : Text) : Directory :=
  { directory with files := directory.files.filter fun file => file.1 ≠ components path }

/-- Puts a file in place, with the folders it lies in. -/
def write (directory : Directory) (path : Text) (content : ByteArray) : Directory :=
  let rest := directory.delete path
  let names := components path
  let around := (List.range names.length).map fun n => names.take n
  ⟨(names, content) :: rest.files, around ++ rest.folders⟩

/-- Follows the rest of a path from a folder of the tree. -/
def readFrom (directory : Directory) (folder : List Text) : List Text → Except FileError ByteArray
  | [] => .error .isDirectory
  | name :: rest =>
    if name = [] ∨ name = ['.'] then readFrom directory folder rest
    else if name = ['.', '.'] then
      if folder.isEmpty then
        .error (if rest.all fun n => n = [] ∨ n = ['.'] ∨ n = ['.', '.'] then .isDirectory
          else .notFound)
      else readFrom directory folder.dropLast rest
    else
      match directory.files.lookup (folder ++ [name]) with
      | some content => if rest.isEmpty then .ok content else .error .notDirectory
      | none =>
        if folder ++ [name] ∈ directory.folders then readFrom directory (folder ++ [name]) rest
        else .error .notFound

/-- The bytes of the file a path leads to. Nothing outside of the tree can be read. -/
def readBytes (directory : Directory) (path : Text) : Except FileError ByteArray :=
  match path with
  | [] => .error .notFound
  | '/' :: rest => .error (if rest.all (· = '/') then .isDirectory else .notFound)
  | _ => directory.readFrom [] (path.splitOn '/')

/-- The text of the file a path leads to. -/
def read (directory : Directory) (path : Text) : Except FileError Text :=
  directory.readBytes path >>= decode

end Directory

end TextGrammar
