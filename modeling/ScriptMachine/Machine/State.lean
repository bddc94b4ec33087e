import ScriptMachine.Machine.Frame
import ScriptMachine.Machine.Snapshot
import ScriptMachine.Options
import ScriptMachine.Proto.Basic

/-!
# The state of a machine

* The *world* is what host routines may change as they like: the heap, their own table of routines,
  metatables by type, sources, the debugger and the journal.
* Each thread of control has a processor with its own value stack and execution stack. Processor
  zero is the root; processor `n` runs coroutine `n`.
* Closures and cells belong to the machine alone.

The type `ν` names the routines that the host brings along.
-/

namespace ScriptMachine

/-- What a native function runs. -/
inductive Routine (ν : Type)
  /-- Steps through a table in a generic loop. -/
  | tableNext
  /-- Steps through a range in a generic loop. -/
  | rangeNext
  | host (routine : ν)
deriving Inhabited

structure Native (ν : Type) where
  name : String
  routine : Routine ν
deriving Inhabited

/-- A debugger that watches variables, and changes some, at the stops it meets. -/
structure Observer where
  watches : List String := []
  /-- What to assign at which stop. -/
  assignments : List (Nat × String × Value) := []
  detachAt : Option Nat := none
  failAt : Option Nat := none
  /-- The stops met so far. -/
  hits : Nat := 0
deriving Inhabited

/-- Where execution stopped for a debugger. -/
structure Stop where
  address : Nat
  line : UInt32
  function : String
  depth : Nat
deriving DecidableEq, Inhabited, Repr

/-- What the host has seen of a run. -/
inductive Event
  | printed (values : List Snapshot)
  /-- A stop, with each watched variable or why it could not be read. -/
  | stopped (stop : Stop) (watched : List (Except String Snapshot))
deriving Inhabited

structure World (ν : Type) where
  heap : Heap
  natives : Array (Native ν)
  globals : TableId
  typeMetatables : List (Kind × TableId) := []
  sources : Array String := #[]
  debugger : Option Observer := none
  journal : Array Event := #[]
deriving Inhabited

/-- A function with the cells it captured. -/
structure Closure where
  proto : Proto
  cells : Array CellId
deriving Inhabited

/-- The heights of both stacks when a loop was entered; unwinding stops there. -/
structure Mark where
  frames : Nat := 0
  stack : Nat := 0
deriving DecidableEq, Inhabited, Repr

/-- How a suspended processor goes on. -/
inductive Resumption
  /-- With a result for a frame that is already popped. -/
  | deliver (frame : Frame)
  /-- With this instruction of the top frame. -/
  | instruction (ip : Nat)
deriving Inhabited

structure Processor where
  stack : ValueStack := {}
  frames : Array Frame := #[]
  /-- Calls from inside this processor's own activations that have not returned. -/
  nestedCalls : Nat := 0
  asyncMode : Bool := false
  pending : Option (Resumption × Mark) := none
  /-- Instructions between forced yields; zero for none. -/
  autoYield : Nat := 0
  sinceResume : Nat := 0
deriving Inhabited

structure Coroutine where
  function : Value
  state : CoroutineState
deriving Inhabited

structure State (ν : Type) where
  world : World ν
  options : Options
  closures : Array Closure := #[]
  cells : Array Cell := #[]
  processors : Array Processor := #[{}]
  /-- Coroutine `n` stands at index `n - 1`. -/
  coroutines : Array Coroutine := #[]
  /-- The coroutines that are being resumed, the innermost first. -/
  active : List ThreadId := []
  /-- The processor that runs now. -/
  current : ThreadId := ⟨0⟩
  /-- Calls of the host that have not returned. -/
  entries : Nat := 0
  /-- Instructions executed by the whole tree. -/
  instructionCount : Nat := 0
deriving Inhabited

namespace State

variable {ν : Type}

/-! ## Reading -/

def heap (s : State ν) : Heap := s.world.heap

def processorOf (s : State ν) (c : ThreadId) : Processor := s.processors[c.index]?.getD {}

/-- The processor that runs now. -/
def processor (s : State ν) : Processor := s.processorOf s.current

def stackOf (s : State ν) (c : ThreadId) : ValueStack := (s.processorOf c).stack

/-- The depth of the execution stack that runs now. -/
def callDepth (s : State ν) : Nat := s.processor.frames.size

def closure (s : State ν) (f : ClosureId) : Closure := s.closures[f.index]?.getD default

def native (s : State ν) (f : NativeId) : Native ν :=
  s.world.natives[f.index]?.getD ⟨"", .tableNext⟩

def cell (s : State ν) (c : CellId) : Cell := s.cells[c.index]?.getD (.closed .nil)

/-- The value of a captured variable. -/
def readCell (s : State ν) (c : CellId) : Value := (s.cell c).read s.stackOf

/-- The coroutine of a thread. The root belongs to none, and counts as a dead one. -/
def coroutine (s : State ν) (c : ThreadId) : Coroutine :=
  match c.index with
  | 0 => ⟨.nil, .dead⟩
  | n + 1 => s.coroutines[n]?.getD ⟨.nil, .dead⟩

def coroutineState (s : State ν) (c : ThreadId) : CoroutineState := (s.coroutine c).state

/-- The coroutine that is being resumed. -/
def currentCoroutine (s : State ν) : Option ThreadId := s.active.head?

/-- The processor that runs now belongs to a coroutine. -/
def inCoroutine (s : State ν) : Bool := s.current.index != 0

/-- A routine that runs now may ask for a yield. -/
def isYieldable (s : State ν) : Bool := s.inCoroutine && s.processor.nestedCalls == 0

def sourceName (s : State ν) (id : Nat) : String :=
  s.world.sources[id]?.getD s!"chunk_{id}"

def names (s : State ν) : FunctionNames :=
  ⟨fun f => (s.closure f).proto.name, fun f => (s.native f).name⟩

/-- The name of a frame in traces: the caller's name for it, or its own. -/
def frameName (s : State ν) (f : Frame) : String :=
  match f.name with
  | some name => name
  | none =>
    match f.callee with
    | .script c => (s.closure c).proto.name
    | .native n => (s.native n).name

/-- The object behind a value, in words; empty for values that are no objects. Tables are left
out. -/
def inspect (s : State ν) : Value → String
  | .function f =>
    let c := s.closure f
    "Closure(" ++ c.proto.name ++ ", " ++ toString c.cells.size ++ " upvalues)"
  | .native f => "CallbackFunction(" ++ (s.native f).name ++ ")"
  | .userdata u => "UserData(" ++ (s.heap.object u).descriptor.name ++ ")"
  | .await r => "AwaitRequest(pending: " ++ toString (s.heap.isPending r) ++ ")"
  | .thread c =>
    "Coroutine(#" ++ toString c.index ++ ", " ++ (s.coroutineState c).label ++ ")"
  | _ => ""

def scene (s : State ν) : Snapshot.Scene :=
  { heap := s.heap, globals := some s.world.globals, names := s.names,
    coroutineState := s.coroutineState }

/-! ## Writing -/

def setHeap (s : State ν) (heap : Heap) : State ν := { s with world := { s.world with heap } }

def modifyHeap (s : State ν) (f : Heap → Heap) : State ν :=
  { s with world := { s.world with heap := f s.world.heap } }

def modifyProcessorOf (s : State ν) (c : ThreadId) (f : Processor → Processor) : State ν :=
  { s with processors := s.processors.modify c.index f }

/-- Changes the processor that runs now. -/
def modifyProcessor (s : State ν) (f : Processor → Processor) : State ν :=
  s.modifyProcessorOf s.current f

def modifyStack (s : State ν) (f : ValueStack → ValueStack) : State ν :=
  s.modifyProcessor fun p => { p with stack := f p.stack }

def modifyFrames (s : State ν) (f : Array Frame → Array Frame) : State ν :=
  s.modifyProcessor fun p => { p with frames := f p.frames }

/-- Writes a captured variable. -/
def writeCell (s : State ν) (c : CellId) (v : Value) : State ν :=
  match s.cell c with
  | .opened owner slot =>
    s.modifyProcessorOf owner fun p => { p with stack := p.stack.set slot v }
  | .closed _ => { s with cells := s.cells.setIfInBounds c.index (.closed v) }

/-- Detaches a cell from its slot. -/
def closeCell (s : State ν) (c : CellId) : State ν :=
  let closed := (s.cell c).close s.stackOf
  { s with cells := s.cells.setIfInBounds c.index closed }

def newCell (s : State ν) (c : Cell) : CellId × State ν :=
  (⟨s.cells.size⟩, { s with cells := s.cells.push c })

def newClosure (s : State ν) (c : Closure) : Value × State ν :=
  (.function ⟨s.closures.size⟩, { s with closures := s.closures.push c })

def newNative (s : State ν) (n : Native ν) : Value × State ν :=
  (.native ⟨s.world.natives.size⟩,
   { s with world := { s.world with natives := s.world.natives.push n } })

def setCoroutineState (s : State ν) (c : ThreadId) (state : CoroutineState) : State ν :=
  { s with coroutines := s.coroutines.modify (c.index - 1) fun r => { r with state } }

/-- Adds a coroutine on a fresh processor. -/
def newCoroutine (s : State ν) (function : Value) : ThreadId × State ν :=
  (⟨s.processors.size⟩,
   { s with
     processors := s.processors.push {}
     coroutines := s.coroutines.push ⟨function, .notStarted⟩ })

def record (s : State ν) (e : Event) : State ν :=
  { s with world := { s.world with journal := s.world.journal.push e } }

def setDebugger (s : State ν) (debugger : Option Observer) : State ν :=
  { s with world := { s.world with debugger } }

end State

/-- Work on the state that may fail; what was done before a failure stays done. -/
abbrev Exec (ν : Type) := EStateM Fault (State ν)

namespace Exec

variable {ν : Type}

def defect {α : Type} (d : Defect) : Exec ν α := throw (.defect d)

def raise {α : Type} (c : Cause) : Exec ν α := throw (.raise c)

/-- The result, or the cause of a script error. -/
def ofCause {α : Type} : Except Cause α → Exec ν α
  | .ok a => pure a
  | .error c => raise c

def ofExcept {α : Type} : Except Fault α → Exec ν α
  | .ok a => pure a
  | .error e => throw e

/-- A part of the stack that has to be there. -/
def present {α : Type} : Option α → Exec ν α
  | some a => pure a
  | none => defect .stackUnderflow

/-! ## The value stack of the processor that runs now -/

def stack : Exec ν ValueStack := do return (← get).processor.stack

def height : Exec ν Nat := do return (← stack).size

def push (v : Value) : Exec ν Unit := modify fun s => s.modifyStack (·.push v)

def pushAll (vs : List Value) : Exec ν Unit := modify fun s => s.modifyStack (·.pushAll vs)

def peek (offset : Nat) : Exec ν Value := do present ((← stack).peek? offset)

def pop : Exec ν Value := do
  let v ← peek 0
  modify fun s => s.modifyStack fun stack => stack.truncate (stack.size - 1)
  return v

/-- Pops a value and collapses it. -/
def popScalar : Exec ν Value := do return (← pop).scalar

def poke (offset : Nat) (v : Value) : Exec ν Unit := do
  let _ ← peek offset
  modify fun s => s.modifyStack (·.poke offset v)

def swap (a b : Nat) : Exec ν Unit := do
  let x ← peek a
  let y ← peek b
  modify fun s => s.modifyStack fun stack => (stack.poke a y).poke b x

def truncate (size : Nat) : Exec ν Unit := modify fun s => s.modifyStack (·.truncate size)

/-- Takes the values from an index on. -/
def splitOff (start : Nat) : Exec ν (List Value) := do
  let vs ← present ((← stack).above? start)
  truncate start
  return vs

end Exec

end ScriptMachine
