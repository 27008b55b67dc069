import TextGrammar.Alternative.Basic
import TextGrammar.Alternative.Printer
import TextGrammar.Alternative.Reader
import TextGrammar.Config.Basic
import TextGrammar.Config.Reader
import TextGrammar.Engine.Basic
import TextGrammar.Engine.Builder
import TextGrammar.Expansion.Basic
import TextGrammar.Expansion.Expander
import TextGrammar.Files.Directory
import TextGrammar.Files.Error
import TextGrammar.Forced.Cycle
import TextGrammar.Forced.Unfold
import TextGrammar.Grammar.Basic
import TextGrammar.Grammar.Error
import TextGrammar.Group.Desugar
import TextGrammar.Group.Forest
import TextGrammar.Main
import TextGrammar.Normal.Normalize
import TextGrammar.Normal.Passes
import TextGrammar.Playground.Basic
import TextGrammar.Playground.Json
import TextGrammar.Playground.Sample
import TextGrammar.Playground.Tavern
import TextGrammar.Production
import TextGrammar.Random.ChaCha
import TextGrammar.Random.Generator
import TextGrammar.Random.Source
import TextGrammar.Ron.Layout
import TextGrammar.Ron.Scalar
import TextGrammar.Ron.Value
import TextGrammar.Shell.Arguments
import TextGrammar.Shell.Report
import TextGrammar.Shell.Session
import TextGrammar.Symbol
import TextGrammar.Table.Basic
import TextGrammar.Table.Reader
import TextGrammar.Text.Basic
import TextGrammar.Unicode.Alphabetic
import TextGrammar.Unicode.CaseRun
import TextGrammar.Unicode.Cased
import TextGrammar.Unicode.Lowercase
import TextGrammar.Unicode.Numeric
import TextGrammar.Unicode.RangeTable
import TextGrammar.Unicode.Uppercase
import TextGrammar.Unicode.Whitespace
import TextGrammar.Proofs.Characters
import TextGrammar.Proofs.Language
import TextGrammar.Proofs.Symbols
import TextGrammar.Proofs.Texts
import TextGrammar.Proofs.References
import TextGrammar.Proofs.Groups.Content
import TextGrammar.Proofs.Groups.Extraction
import TextGrammar.Proofs.Groups.Numbering
import TextGrammar.Proofs.Groups.Scanning
import TextGrammar.Proofs.Groups.Layout
import TextGrammar.Proofs.Tables
import TextGrammar.Proofs.IndexedTables
import TextGrammar.Proofs.Groups.Reading
import TextGrammar.Proofs.Groups.Correctness
import TextGrammar.Proofs.Canonical
import TextGrammar.Proofs.Forced.Resolution
import TextGrammar.Proofs.Forced.Language
import TextGrammar.Proofs.Parsing
import TextGrammar.Proofs.Forced.Graph
import TextGrammar.Proofs.Forced.Fillings
import TextGrammar.Proofs.Forced.CrossProduct
import TextGrammar.Proofs.Normal.Capitals
import TextGrammar.Proofs.Normal.Reading
import TextGrammar.Proofs.Normal.Passes
import TextGrammar.Proofs.Normal.Settling
import TextGrammar.Proofs.Forced.Walk
import TextGrammar.Proofs.Forced.Cycles
import TextGrammar.Proofs.Expansion.Replies
import TextGrammar.Proofs.Expansion.Derivations
import TextGrammar.Proofs.Reachable
import TextGrammar.Proofs.Expansion.Traces
import TextGrammar.Proofs.Engine.Restart
import TextGrammar.Proofs.Groups.Pairs
import TextGrammar.Proofs.Groups.Projection
import TextGrammar.Proofs.Spelling
import TextGrammar.Proofs.Statements
import TextGrammar.Proofs.RoundTrip
import TextGrammar.Proofs.Mentions
import TextGrammar.Proofs.Agreement
import TextGrammar.Proofs.Groups.Optional
import TextGrammar.Proofs.Groups.Hoisting
import TextGrammar.Proofs.Groups.Accounting
import TextGrammar.Proofs.Groups.Nesting
import TextGrammar.Proofs.Renaming
import TextGrammar.Proofs.Groups.Renumbering
import TextGrammar.Proofs.Groups.Doubling
import TextGrammar.Proofs.Groups.Redundant
import TextGrammar.Proofs.Forced.PassLimit
import TextGrammar.Proofs.Forced.Frame
import TextGrammar.Proofs.Normal.NormalForm
import TextGrammar.Proofs.Expansion.Failures
import TextGrammar.Proofs.Expansion.DepthLimit
import TextGrammar.Proofs.Expansion.RandomProcess
import TextGrammar.Proofs.Expansion.Reuse
import TextGrammar.Proofs.Engine.Bookkeeping
import TextGrammar.Proofs.Forced.Order
import TextGrammar.Proofs.Acceptance
import TextGrammar.Proofs.Reformatting
import TextGrammar.Proofs.Legible
import TextGrammar.Proofs.Forced.Seams
import TextGrammar.Proofs.Splicing
import TextGrammar.Proofs.Shell.Words
import TextGrammar.Proofs.Shell.Report
