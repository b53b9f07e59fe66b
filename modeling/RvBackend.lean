import RvBackend.Asm.Line
import RvBackend.Asm.Printing
import RvBackend.Asm.Program
import RvBackend.Asm.Register
import RvBackend.Asm.Support
import RvBackend.Command.Error
import RvBackend.Command.Files
import RvBackend.Command.Flags
import RvBackend.Command.Host
import RvBackend.Command.Line
import RvBackend.Command.Session
import RvBackend.Command.Verb
import RvBackend.Command.Verify
import RvBackend.Command.World
import RvBackend.Json.Reader
import RvBackend.Json.Token
import RvBackend.Json.Value
import RvBackend.Lower.Emit
import RvBackend.Lower.Expression
import RvBackend.Lower.Fault
import RvBackend.Lower.Frame
import RvBackend.Lower.Program
import RvBackend.Lower.Stack
import RvBackend.Lower.Statement
import RvBackend.Machine.Input
import RvBackend.Machine.Listing
import RvBackend.Machine.Operation
import RvBackend.Machine.Run
import RvBackend.Machine.Step
import RvBackend.Machine.Word
import RvBackend.Main
import RvBackend.Output.Log
import RvBackend.Output.Sink
import RvBackend.Proofs.Asm.Bare
import RvBackend.Proofs.Asm.Definitions
import RvBackend.Proofs.Asm.Listing
import RvBackend.Proofs.Asm.Loading
import RvBackend.Proofs.Asm.Operands
import RvBackend.Proofs.Asm.Placement
import RvBackend.Proofs.Asm.Printing
import RvBackend.Proofs.Asm.Reading
import RvBackend.Proofs.Asm.Redefinition
import RvBackend.Proofs.Asm.Refusal
import RvBackend.Proofs.Command.Files
import RvBackend.Proofs.Command.Generation
import RvBackend.Proofs.Command.Surroundings
import RvBackend.Proofs.Json.Document
import RvBackend.Proofs.Json.Grammar
import RvBackend.Proofs.Json.Reading
import RvBackend.Proofs.Lower.Acceptance
import RvBackend.Proofs.Lower.Align
import RvBackend.Proofs.Lower.Balance
import RvBackend.Proofs.Lower.Closure
import RvBackend.Proofs.Lower.Emission
import RvBackend.Proofs.Lower.Faults
import RvBackend.Proofs.Lower.FrameCheck
import RvBackend.Proofs.Lower.FrameLayout
import RvBackend.Proofs.Lower.Inert
import RvBackend.Proofs.Lower.Labels
import RvBackend.Proofs.Lower.Lines
import RvBackend.Proofs.Lower.Loops
import RvBackend.Proofs.Lower.Made
import RvBackend.Proofs.Lower.ReadBack
import RvBackend.Proofs.Lower.Regeneration
import RvBackend.Proofs.Lower.RegisterNames
import RvBackend.Proofs.Lower.Slots
import RvBackend.Proofs.Lower.Spelling
import RvBackend.Proofs.Lower.Supported
import RvBackend.Proofs.Lower.Symbols
import RvBackend.Proofs.Lower.Walk
import RvBackend.Proofs.Lower.Wraparound
import RvBackend.Proofs.Machine.Dispatch
import RvBackend.Proofs.Machine.Division
import RvBackend.Proofs.Machine.Effects
import RvBackend.Proofs.Machine.Instructions
import RvBackend.Proofs.Machine.Limit
import RvBackend.Proofs.Machine.Reflected
import RvBackend.Proofs.Machine.SafeRuns
import RvBackend.Proofs.Machine.Streams
import RvBackend.Proofs.Meaning.Evaluator
import RvBackend.Proofs.Meaning.Guesses
import RvBackend.Proofs.Meaning.Words
import RvBackend.Proofs.Program.Generated
import RvBackend.Proofs.Program.Preservation
import RvBackend.Proofs.Program.Safety
import RvBackend.Proofs.Scope.Declarations
import RvBackend.Proofs.Scope.Restored
import RvBackend.Proofs.Settings.Document
import RvBackend.Proofs.Settings.Registers
import RvBackend.Proofs.Settings.RoundTrip
import RvBackend.Proofs.Settings.Valid
import RvBackend.Proofs.Settings.Written
import RvBackend.Proofs.Simulation.Basic
import RvBackend.Proofs.Simulation.Comparison
import RvBackend.Proofs.Simulation.Counting
import RvBackend.Proofs.Simulation.Expression
import RvBackend.Proofs.Simulation.Function
import RvBackend.Proofs.Simulation.Memory
import RvBackend.Proofs.Simulation.Program
import RvBackend.Proofs.Simulation.Run
import RvBackend.Proofs.Simulation.Scope
import RvBackend.Proofs.Simulation.StackArea
import RvBackend.Proofs.Simulation.Statement
import RvBackend.Proofs.Simulation.StraightLine
import RvBackend.Proofs.Text.Quotation
import RvBackend.Proofs.Text.Utf8
import RvBackend.Proofs.Tree.Agreement
import RvBackend.Proofs.Tree.DataModel
import RvBackend.Proofs.Tree.Members
import RvBackend.Proofs.Tree.Occurrences
import RvBackend.Proofs.Tree.Parts
import RvBackend.Proofs.Tree.Presentation
import RvBackend.Proofs.Tree.Recovery
import RvBackend.Proofs.Tree.ScopeMembers
import RvBackend.Proofs.Tree.TypeNames
import RvBackend.Proofs.Tree.Unslotted
import RvBackend.Proofs.Tree.Written
import RvBackend.Scope.Chain
import RvBackend.Scope.Entry
import RvBackend.Scope.Table
import RvBackend.Settings.Abi
import RvBackend.Settings.Basic
import RvBackend.Settings.Error
import RvBackend.Settings.Library
import RvBackend.Settings.Load
import RvBackend.Settings.Save
import RvBackend.Text.Blank
import RvBackend.Text.Case
import RvBackend.Text.Decimal
import RvBackend.Text.Escape
import RvBackend.Text.Literal
import RvBackend.Text.Path
import RvBackend.Text.Printable
import RvBackend.Text.Quoted
import RvBackend.Text.Split
import RvBackend.Text.Utf8
import RvBackend.Toml.Date
import RvBackend.Toml.Reader
import RvBackend.Toml.Scan
import RvBackend.Toml.Tracker
import RvBackend.Toml.Value
import RvBackend.Tree.Basic
import RvBackend.Tree.Decode
import RvBackend.Tree.Fields
import RvBackend.Tree.Location
import RvBackend.Tree.Node
import RvBackend.Tree.Operator
import RvBackend.Tree.Sexpr
import RvBackend.Tree.Slots
import RvBackend.Tree.Ty
