import Gatehouse.Archive
import Gatehouse.Bytes
import Gatehouse.Clock
import Gatehouse.Command.Arguments
import Gatehouse.Command.Check
import Gatehouse.Command.Policy
import Gatehouse.Command.Registry
import Gatehouse.Command.Report
import Gatehouse.Command.Run
import Gatehouse.Contract
import Gatehouse.Cst
import Gatehouse.Cst.Walker
import Gatehouse.Digest
import Gatehouse.Digest.Compression
import Gatehouse.Disk
import Gatehouse.Dotenv
import Gatehouse.Entry
import Gatehouse.FileError
import Gatehouse.Grammar.Block
import Gatehouse.Grammar.Case
import Gatehouse.Grammar.Expression
import Gatehouse.Grammar.Literal
import Gatehouse.Grammar.Pattern
import Gatehouse.Grammar.Statement
import Gatehouse.Grammar.Word
import Gatehouse.Kind
import Gatehouse.Layout
import Gatehouse.Lexeme
import Gatehouse.Limits
import Gatehouse.Linter
import Gatehouse.Lowering
import Gatehouse.Machine
import Gatehouse.Path
import Gatehouse.Policy
import Gatehouse.Process
import Gatehouse.Proofs.Archive.ByteOrder
import Gatehouse.Proofs.Archive.Lookup
import Gatehouse.Proofs.Archive.RoundTrip
import Gatehouse.Proofs.Archive.Slots
import Gatehouse.Proofs.Clock
import Gatehouse.Proofs.Command.Agreement
import Gatehouse.Proofs.Command.Batch
import Gatehouse.Proofs.Command.History
import Gatehouse.Proofs.Command.Register
import Gatehouse.Proofs.Contract.Asynchronous
import Gatehouse.Proofs.Contract.HiddenNames
import Gatehouse.Proofs.Contract.Literals
import Gatehouse.Proofs.Contract.Load
import Gatehouse.Proofs.Contract.StorageCells
import Gatehouse.Proofs.Cst.Aims
import Gatehouse.Proofs.Cst.Chain
import Gatehouse.Proofs.Cst.Conforms
import Gatehouse.Proofs.Cst.Formed
import Gatehouse.Proofs.Cst.Laid
import Gatehouse.Proofs.Cst.Lays
import Gatehouse.Proofs.Cst.Lines
import Gatehouse.Proofs.Cst.Names
import Gatehouse.Proofs.Cst.Shape
import Gatehouse.Proofs.Cst.Statements
import Gatehouse.Proofs.Cst.Target
import Gatehouse.Proofs.Cst.Walker
import Gatehouse.Proofs.Disk
import Gatehouse.Proofs.Grammar.Block
import Gatehouse.Proofs.Grammar.Case
import Gatehouse.Proofs.Grammar.Expression
import Gatehouse.Proofs.Grammar.Literal
import Gatehouse.Proofs.Grammar.Operand
import Gatehouse.Proofs.Grammar.Pattern
import Gatehouse.Proofs.Grammar.Statement
import Gatehouse.Proofs.Grammar.Word
import Gatehouse.Proofs.Lexeme
import Gatehouse.Proofs.Linter.Admission
import Gatehouse.Proofs.Linter.Constructors
import Gatehouse.Proofs.Linter.Exports
import Gatehouse.Proofs.Linter.Notes
import Gatehouse.Proofs.Linter.Opacity
import Gatehouse.Proofs.Linter.Registries
import Gatehouse.Proofs.Linter.Report
import Gatehouse.Proofs.Linter.Rules
import Gatehouse.Proofs.Linter.Safe
import Gatehouse.Proofs.Lists
import Gatehouse.Proofs.Lowering.Assignment
import Gatehouse.Proofs.Lowering.Comprehension
import Gatehouse.Proofs.Lowering.Contexts
import Gatehouse.Proofs.Lowering.Expressed
import Gatehouse.Proofs.Lowering.Expression
import Gatehouse.Proofs.Lowering.Height
import Gatehouse.Proofs.Lowering.Kinds
import Gatehouse.Proofs.Lowering.Layers
import Gatehouse.Proofs.Lowering.Levels
import Gatehouse.Proofs.Lowering.Lines
import Gatehouse.Proofs.Lowering.ModuleLines
import Gatehouse.Proofs.Lowering.Operands
import Gatehouse.Proofs.Lowering.Order
import Gatehouse.Proofs.Lowering.Outline
import Gatehouse.Proofs.Lowering.Regrouping
import Gatehouse.Proofs.Lowering.Result
import Gatehouse.Proofs.Lowering.Rounds
import Gatehouse.Proofs.Lowering.Shown
import Gatehouse.Proofs.Lowering.Sides
import Gatehouse.Proofs.Lowering.Stated
import Gatehouse.Proofs.Lowering.Statement
import Gatehouse.Proofs.Lowering.Strings
import Gatehouse.Proofs.Lowering.Target
import Gatehouse.Proofs.Lowering.Values
import Gatehouse.Proofs.Lowering.WellFormed
import Gatehouse.Proofs.Occurrence
import Gatehouse.Proofs.Process.Accounts
import Gatehouse.Proofs.Process.Frames
import Gatehouse.Proofs.Process.Run
import Gatehouse.Proofs.Reader
import Gatehouse.Proofs.Search
import Gatehouse.Proofs.Settings
import Gatehouse.Proofs.Source
import Gatehouse.Proofs.Store.File
import Gatehouse.Proofs.Store.Mapped
import Gatehouse.Proofs.Store.Order
import Gatehouse.Proofs.Store.Registration
import Gatehouse.Proofs.Store.SortedMap
import Gatehouse.Proofs.Store.Sorting
import Gatehouse.Proofs.Tree.Contexts
import Gatehouse.Proofs.Tree.Height
import Gatehouse.Proofs.Tree.Statements
import Gatehouse.Proofs.Tree.WellFormed
import Gatehouse.Reader
import Gatehouse.Registry
import Gatehouse.Rule
import Gatehouse.SafeNames
import Gatehouse.Search
import Gatehouse.Settings
import Gatehouse.Source
import Gatehouse.Store
import Gatehouse.Store.File
import Gatehouse.Text.Blank
import Gatehouse.Text.Duration
import Gatehouse.Text.Identifier
import Gatehouse.Text.Json
import Gatehouse.Text.Quoted
import Gatehouse.Tree
import Gatehouse.Violation
