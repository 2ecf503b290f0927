import StackMachine.Cli.Execute
import StackMachine.Cli.Invocation
import StackMachine.Cli.Options
import StackMachine.Code.Instruction
import StackMachine.Code.Listing
import StackMachine.Code.Module
import StackMachine.Code.Opcode
import StackMachine.Code.Value
import StackMachine.Code.Verify
import StackMachine.Config.Json
import StackMachine.Config.LogLevels
import StackMachine.Config.Settings
import StackMachine.Heap.Basic
import StackMachine.Heap.Collect
import StackMachine.Image.Arena
import StackMachine.Image.Bytes
import StackMachine.Image.Decode
import StackMachine.Image.Encode
import StackMachine.Image.Format
import StackMachine.Machine.Arith
import StackMachine.Machine.Fault
import StackMachine.Machine.Output
import StackMachine.Machine.Primitive
import StackMachine.Machine.Program
import StackMachine.Machine.Stack
import StackMachine.Machine.Step
import StackMachine.Machine.Store
import StackMachine.Main
import StackMachine.Proofs.Code.Codec
import StackMachine.Proofs.Code.Names
import StackMachine.Proofs.Code.Verdict
import StackMachine.Proofs.Code.Verified
import StackMachine.Proofs.Config.Files
import StackMachine.Proofs.Config.Grammar
import StackMachine.Proofs.Config.Levels
import StackMachine.Proofs.Config.Rendering
import StackMachine.Proofs.Heap.Allocation
import StackMachine.Proofs.Heap.Collection
import StackMachine.Proofs.Heap.Contents
import StackMachine.Proofs.Heap.Counting
import StackMachine.Proofs.Heap.Fields
import StackMachine.Proofs.Heap.Handles
import StackMachine.Proofs.Heap.History
import StackMachine.Proofs.Heap.Layouts
import StackMachine.Proofs.Heap.Marking
import StackMachine.Proofs.Heap.Regular
import StackMachine.Proofs.Heap.Renaming
import StackMachine.Proofs.Heap.Sharing
import StackMachine.Proofs.Heap.SlotTable
import StackMachine.Proofs.Heap.Values
import StackMachine.Proofs.Heap.View
import StackMachine.Proofs.Image.Answers
import StackMachine.Proofs.Image.Grammar
import StackMachine.Proofs.Image.Joining
import StackMachine.Proofs.Image.Packing
import StackMachine.Proofs.Image.Recognition
import StackMachine.Proofs.Image.Rejection
import StackMachine.Proofs.Image.Reload
import StackMachine.Proofs.Image.RoundTrip
import StackMachine.Proofs.Image.Saving
import StackMachine.Proofs.Image.Sealed
import StackMachine.Proofs.Image.Text
import StackMachine.Proofs.Image.Tiling
import StackMachine.Proofs.Image.Truncation
import StackMachine.Proofs.Image.Unambiguous
import StackMachine.Proofs.Image.Views
import StackMachine.Proofs.Lists
import StackMachine.Proofs.Machine.Actions
import StackMachine.Proofs.Machine.Appending
import StackMachine.Proofs.Machine.Arithmetic
import StackMachine.Proofs.Machine.Branching
import StackMachine.Proofs.Machine.Calls
import StackMachine.Proofs.Machine.Comparison
import StackMachine.Proofs.Machine.Compiled
import StackMachine.Proofs.Machine.Cursors
import StackMachine.Proofs.Machine.Discipline
import StackMachine.Proofs.Machine.Evolution
import StackMachine.Proofs.Machine.FieldStore
import StackMachine.Proofs.Machine.Instructions
import StackMachine.Proofs.Machine.Integers
import StackMachine.Proofs.Machine.Interchange
import StackMachine.Proofs.Machine.Interpreted
import StackMachine.Proofs.Machine.Invariants
import StackMachine.Proofs.Machine.Limits
import StackMachine.Proofs.Machine.Loading
import StackMachine.Proofs.Machine.Lockstep
import StackMachine.Proofs.Machine.Nested
import StackMachine.Proofs.Machine.Objects
import StackMachine.Proofs.Machine.Operands
import StackMachine.Proofs.Machine.Operations
import StackMachine.Proofs.Machine.Parity
import StackMachine.Proofs.Machine.Peers
import StackMachine.Proofs.Machine.Primitives
import StackMachine.Proofs.Machine.Rejected
import StackMachine.Proofs.Machine.Runs
import StackMachine.Proofs.Machine.Safety
import StackMachine.Proofs.Machine.Sentinels
import StackMachine.Proofs.Machine.Sessions
import StackMachine.Proofs.Machine.Shadow
import StackMachine.Proofs.Machine.Shadowing
import StackMachine.Proofs.Machine.Slots
import StackMachine.Proofs.Machine.Termination
import StackMachine.Proofs.Machine.Twins
import StackMachine.Text.Hex
import StackMachine.Text.Quoted
import StackMachine.Text.Unprintable
import StackMachine.Trace.Event
import StackMachine.Trace.Level
import StackMachine.Trace.Log
import StackMachine.VirtualMachine
