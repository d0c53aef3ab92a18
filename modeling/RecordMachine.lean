import RecordMachine.Activation
import RecordMachine.Blueprint
import RecordMachine.Bytecode
import RecordMachine.Console
import RecordMachine.Decimal.Binary
import RecordMachine.Decimal.Integer
import RecordMachine.Decimal.Layout
import RecordMachine.Decimal.Reading
import RecordMachine.Decimal.Rounding
import RecordMachine.Decimal.Scaled
import RecordMachine.Decimal.Shortest
import RecordMachine.Dictionary
import RecordMachine.Event
import RecordMachine.Fault
import RecordMachine.FileTree
import RecordMachine.Heap
import RecordMachine.Instruction
import RecordMachine.Json.Access
import RecordMachine.Json.Basic
import RecordMachine.Json.Reader
import RecordMachine.Json.Writer
import RecordMachine.Lowering.Error
import RecordMachine.Lowering.Expression
import RecordMachine.Lowering.Program
import RecordMachine.Lowering.Scope
import RecordMachine.Lowering.Statement
import RecordMachine.Machine.Local
import RecordMachine.Machine.Step
import RecordMachine.Machine.Words
import RecordMachine.Opcode
import RecordMachine.Profile
import RecordMachine.Proofs.Acceptance.Expression
import RecordMachine.Proofs.Acceptance.Program
import RecordMachine.Proofs.Acceptance.Rules
import RecordMachine.Proofs.Backpatching.Edits
import RecordMachine.Proofs.Generator.Writing
import RecordMachine.Proofs.Backpatching.Validity
import RecordMachine.Proofs.Discipline.Actions
import RecordMachine.Proofs.Discipline.Execution
import RecordMachine.Proofs.Discipline.Lowered
import RecordMachine.Proofs.Discipline.Marks
import RecordMachine.Proofs.Heap.Ledger
import RecordMachine.Proofs.Heap.Objects
import RecordMachine.Proofs.Lowering.Blueprints
import RecordMachine.Proofs.Lowering.Literals
import RecordMachine.Proofs.Lowering.Scoping
import RecordMachine.Proofs.Lowering.Placement
import RecordMachine.Proofs.Lowering.Shape
import RecordMachine.Proofs.Machine.Calls
import RecordMachine.Proofs.Machine.Computations
import RecordMachine.Proofs.Machine.Effects
import RecordMachine.Proofs.Machine.References
import RecordMachine.Proofs.Machine.Runs
import RecordMachine.Proofs.Machine.Trace
import RecordMachine.Proofs.Meaning.Expression
import RecordMachine.Proofs.Meaning.Interpreter
import RecordMachine.Proofs.Meaning.Preservation
import RecordMachine.Proofs.Meaning.Primitives
import RecordMachine.Proofs.Meaning.Simulation
import RecordMachine.Proofs.Meaning.Statement
import RecordMachine.Proofs.Meaning.Variables
import RecordMachine.Proofs.Refusal
import RecordMachine.Proofs.Text.Octets
import RecordMachine.Proofs.Validation.Soundness
import RecordMachine.Settings
import RecordMachine.Settings.Document
import RecordMachine.Settings.Layers
import RecordMachine.Text.Blank
import RecordMachine.Text.Hexadecimal
import RecordMachine.Text.Quoted
import RecordMachine.Toml.Basic
import RecordMachine.Toml.Moment
import RecordMachine.Toml.Number
import RecordMachine.Toml.Reader
import RecordMachine.Toml.Writer
import RecordMachine.Toolchain
import RecordMachine.Tree.Basic
import RecordMachine.Tree.Decoding
import RecordMachine.Tree.Encoding
import RecordMachine.TypeTable
import RecordMachine.TypeTable.Document
import RecordMachine.Validation
import RecordMachine.Value
import RecordMachine.Value.Operations
import RecordMachine.Proofs.Machine.DepthLimit
import RecordMachine.Proofs.Correspondence.Actions
import RecordMachine.Proofs.Correspondence.Lockstep
import RecordMachine.Proofs.Machine.Output
import RecordMachine.Proofs.Correspondence.Renaming
import RecordMachine.Proofs.Correspondence.Transparency
import RecordMachine.Proofs.Correspondence.Displacement
import RecordMachine.Proofs.Correspondence.HeapBase
import RecordMachine.Proofs.Correspondence.Isolation
import RecordMachine.Proofs.Profile.Observation
import RecordMachine.Proofs.Profile.Exactness
import RecordMachine.Proofs.Settings.Layering
import RecordMachine.Proofs.Dump.Blueprints
import RecordMachine.Proofs.Dump.Programs
import RecordMachine.Proofs.Json.Documents
import RecordMachine.Proofs.Tree.Decoding
import RecordMachine.Proofs.Tree.Handover
import RecordMachine.Proofs.Generator.Termination
import RecordMachine.Proofs.Generator.Histories
import RecordMachine.Proofs.Lowering.Constructions
import RecordMachine.Proofs.Loops.Rounds
import RecordMachine.Proofs.Loops.Bodies
import RecordMachine.Proofs.Loops.Counting
import RecordMachine.Proofs.Lowering.Irrelevance
import RecordMachine.Proofs.Machine.Failures
import RecordMachine.Proofs.Machine.Locations
import RecordMachine.Proofs.Machine.WordSafety
import RecordMachine.Proofs.Validation.Exactness
import RecordMachine.Proofs.Console.Lines
import RecordMachine.Proofs.Console.Reading
import RecordMachine.Proofs.FileTree.Following
import RecordMachine.Proofs.Settings.Nearest
import RecordMachine.Proofs.Toml.Strings
import RecordMachine.Proofs.Toml.Numerals
import RecordMachine.Proofs.Toml.Documents
import RecordMachine.Proofs.Settings.RoundTrip
import RecordMachine.Proofs.Value.Arithmetic
import RecordMachine.Proofs.Value.Comparisons
import RecordMachine.Proofs.Value.Numerals
import RecordMachine.Proofs.Lowering.Lexical
import RecordMachine.Proofs.Bytecode.Insertions
