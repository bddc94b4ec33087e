import ScriptMachine.Chunk.Cache
import ScriptMachine.Chunk.Format
import ScriptMachine.Chunk.Reader
import ScriptMachine.Chunk.RoundTrip
import ScriptMachine.Chunk.Writer
import ScriptMachine.Digest.Sha1
import ScriptMachine.Fault.Basic
import ScriptMachine.Fault.Cause
import ScriptMachine.Heap.Basic
import ScriptMachine.Heap.Text
import ScriptMachine.Host.Arguments
import ScriptMachine.Host.Library
import ScriptMachine.Host.Routine
import ScriptMachine.Machine.Call
import ScriptMachine.Machine.Control
import ScriptMachine.Machine.Coroutine
import ScriptMachine.Machine.Debugger
import ScriptMachine.Machine.Entry
import ScriptMachine.Machine.Execute
import ScriptMachine.Machine.Frame
import ScriptMachine.Machine.Metatable
import ScriptMachine.Machine.Operator
import ScriptMachine.Machine.Program
import ScriptMachine.Machine.Run
import ScriptMachine.Machine.Snapshot
import ScriptMachine.Machine.Stack
import ScriptMachine.Machine.State
import ScriptMachine.Machine.Unwind
import ScriptMachine.Machine.Variable
import ScriptMachine.Number.Basic
import ScriptMachine.Number.Decimal
import ScriptMachine.Number.Numeral
import ScriptMachine.Number.Text
import ScriptMachine.Options
import ScriptMachine.Proofs.Chunk.Copy
import ScriptMachine.Proofs.Machine.Advance
import ScriptMachine.Proofs.Machine.Attribution
import ScriptMachine.Proofs.Machine.AutoYield
import ScriptMachine.Proofs.Machine.Balance
import ScriptMachine.Proofs.Machine.Blind
import ScriptMachine.Proofs.Machine.Calling
import ScriptMachine.Proofs.Machine.Catching
import ScriptMachine.Proofs.Machine.Chain
import ScriptMachine.Proofs.Machine.Driving
import ScriptMachine.Proofs.Machine.Entering
import ScriptMachine.Proofs.Machine.Evolution
import ScriptMachine.Proofs.Machine.Guards
import ScriptMachine.Proofs.Machine.HandlerRuns
import ScriptMachine.Proofs.Machine.HostCalls
import ScriptMachine.Proofs.Machine.Layout
import ScriptMachine.Proofs.Machine.Leaving
import ScriptMachine.Proofs.Machine.Ledger
import ScriptMachine.Proofs.Machine.Meter
import ScriptMachine.Proofs.Machine.Mirror
import ScriptMachine.Proofs.Machine.Outline
import ScriptMachine.Proofs.Machine.Pacing
import ScriptMachine.Proofs.Machine.Place
import ScriptMachine.Proofs.Machine.Reach
import ScriptMachine.Proofs.Machine.Requests
import ScriptMachine.Proofs.Machine.Routines
import ScriptMachine.Proofs.Machine.Runs
import ScriptMachine.Proofs.Machine.Seated
import ScriptMachine.Proofs.Machine.Slice
import ScriptMachine.Proofs.Machine.Stays
import ScriptMachine.Proofs.Machine.Steps
import ScriptMachine.Proofs.Machine.Surfacing
import ScriptMachine.Proofs.Machine.Switching
import ScriptMachine.Proofs.Machine.Tracing
import ScriptMachine.Proofs.Machine.Transition
import ScriptMachine.Proofs.Machine.Turn
import ScriptMachine.Proofs.Machine.Unwinding
import ScriptMachine.Proofs.Machine.View
import ScriptMachine.Proofs.Number.Arithmetic
import ScriptMachine.Proofs.Number.Grammar
import ScriptMachine.Proofs.Number.Integral
import ScriptMachine.Proofs.Table.History
import ScriptMachine.Proofs.Table.Lookup
import ScriptMachine.Proofs.Table.Representation
import ScriptMachine.Proto.Assembler
import ScriptMachine.Proto.Basic
import ScriptMachine.Proto.Listing
import ScriptMachine.Proto.Opcode
import ScriptMachine.Symbol
import ScriptMachine.Table.Basic
import ScriptMachine.Table.Key
import ScriptMachine.Table.Session
import ScriptMachine.Text.Quoted
import ScriptMachine.Text.Classes
import ScriptMachine.Value.Basic
import ScriptMachine.Value.Kind
import ScriptMachine.Proofs.Machine.LifeCycle
import ScriptMachine.Proofs.Machine.Modes
import ScriptMachine.Proofs.Machine.Suspending
import ScriptMachine.Proofs.Machine.Filling
import ScriptMachine.Proofs.Machine.Methods
import ScriptMachine.Proofs.Machine.Capturing
import ScriptMachine.Proofs.Machine.Sharing
import ScriptMachine.Proofs.Machine.Storing
import ScriptMachine.Proofs.Chunk.Faults
import ScriptMachine.Proofs.Chunk.Renewal
import ScriptMachine.Proofs.Chunk.Cutting
import ScriptMachine.Proofs.Chunk.Rewriting
import ScriptMachine.Proofs.Machine.Budget
import ScriptMachine.Proofs.Machine.Owners
import ScriptMachine.Proofs.Table.Border
import ScriptMachine.Proofs.Machine.Operands
import ScriptMachine.Proofs.Machine.Errands
import ScriptMachine.Proofs.Machine.Decorating
import ScriptMachine.Proofs.Table.Tuples
import ScriptMachine.Proofs.Table.Growth
import ScriptMachine.Proofs.Value.Equality
import ScriptMachine.Proofs.Number.Hexadecimal
import ScriptMachine.Proofs.Machine.Callables
import ScriptMachine.Proofs.Machine.Disguise
import ScriptMachine.Proofs.Machine.Veil
import ScriptMachine.Proofs.Machine.Heeding
import ScriptMachine.Proofs.Machine.Site
import ScriptMachine.Proofs.Machine.Inlining
import ScriptMachine.Proofs.Machine.Parting
import ScriptMachine.Proofs.Machine.Raising
import ScriptMachine.Proofs.Machine.Threading
import ScriptMachine.Proofs.Machine.Inlined
import ScriptMachine.Proofs.Machine.Indexing
import ScriptMachine.Proofs.Number.Written
import ScriptMachine.Proofs.Table.Clearing
import ScriptMachine.Proofs.Table.Consistency
import ScriptMachine.Proofs.Proto.Assembling
import ScriptMachine.Proofs.Machine.Watching
import ScriptMachine.Proofs.Machine.Upholding
import ScriptMachine.Proofs.Machine.Recovering
import ScriptMachine.Proofs.Machine.Assigning
import ScriptMachine.Proofs.Machine.Careful
import ScriptMachine.Proofs.Machine.Enduring
import ScriptMachine.Proofs.Machine.Variables
import ScriptMachine.Proofs.Machine.Discretion
import ScriptMachine.Proofs.Machine.Dropping
import ScriptMachine.Proofs.Machine.Marching
import ScriptMachine.Proofs.Machine.Orderly
import ScriptMachine.Proofs.Machine.Returning
import ScriptMachine.Proofs.Machine.TakingOver
import ScriptMachine.Proofs.Machine.Following
import ScriptMachine.Proofs.Machine.Trailing
import ScriptMachine.Proofs.Machine.TailCalls
