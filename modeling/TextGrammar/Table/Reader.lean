import TextGrammar.Table.Basic
import TextGrammar.Group.Desugar

/-!
# Reading tables

A source is a sequence of statements that end at `;`. Line breaks count as spaces; blank
statements and comments are passed over. In a definition everything behind the first `=` is
content, so the content may hold `=` itself.
-/

namespace TextGrammar

/-- A definition as it is written: what stands in front of the first `=`, and what behind it. -/
structure Definition where
  name : Text
  content : Text
deriving DecidableEq, Repr

namespace Definition

/-- The definition that a statement without whitespace at its ends describes. -/
def ofStatement (statement : Text) : Definition :=
  match statement.splitFirst? '=' with
  | some (name, content) => ⟨name.trim, content.trim⟩
  | none => ⟨statement, []⟩

/-- Adds a definition to a table. Only the symbol of a group may have no content. -/
def addTo (definition : Definition) (table : Table) : Except GrammarError Table :=
  match Symbol.parse? definition.name with
  | none => .error (.invalidSymbolName definition.name)
  | some symbol =>
    if definition.content.isEmpty && !symbol.isSynthetic then .error (.emptyProduction symbol)
    else table.insert symbol (Production.parse definition.content)

end Definition

namespace Table

/-- A statement on one line, without whitespace at its ends. -/
def flatten (statement : Text) : Text :=
  statement.onOneLine.trim

/-- The statements of a source that define something. -/
def statements (source : Text) : List Text :=
  ((source.splitOn ';').map flatten).filter fun s => !s.isEmpty && s.head? ≠ some '#'

/-- The definitions of a source. -/
def definitions (source : Text) : List Definition :=
  (statements source).map Definition.ofStatement

/-- The table that a source without groups describes. -/
def parse (source : Text) : Except GrammarError Table := do
  let table ← (definitions source).foldlM (fun table d => d.addTo table) Table.empty
  if table.contains Symbol.start then .ok table else .error .missingStartSymbol

end Table

end TextGrammar
