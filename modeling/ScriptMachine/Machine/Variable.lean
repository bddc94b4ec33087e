import ScriptMachine.Machine.State

/-!
# Variables

Reading and writing what a symbol names, seen from a frame, and capturing local slots.
-/

namespace ScriptMachine

/-- The closure that runs and the slot of its first local. -/
structure Scope where
  closure : ClosureId
  base : Nat
deriving DecidableEq, Inhabited, Repr

namespace State

variable {ν : Type}

/-- The cell of a captured variable. -/
def upvalueCell (s : State ν) (f : ClosureId) (index : Nat) : Except Fault CellId :=
  match (s.closure f).cells[index]? with
  | some c => .ok c
  | none => .error (.defect (.upvalueOutOfRange index (s.closure f).proto.name))

/-- The value of a variable. A global is read without metamethods. -/
def readSymbol (s : State ν) (scope : Scope) : Symbol → Except Fault Value
  | .slot index _ => .ok (s.processor.stack.get (scope.base + index))
  | .upvalue index _ => do return s.readCell (← s.upvalueCell scope.closure index)
  | .defaultEnv => .ok (.table s.world.globals)
  | .global name env => do
    match ← s.readSymbol scope env with
    | .table t => return (s.heap.table t).getString name
    | other => throw (.raise (.indexOf other.typeName))

/-- The state after a write to a variable. A global is written without metamethods. -/
def writeSymbol (s : State ν) (scope : Scope) (v : Value) : Symbol → Except Fault (State ν)
  | .slot index _ => .ok (s.modifyStack fun stack => stack.set (scope.base + index) v)
  | .upvalue index _ => do return s.writeCell (← s.upvalueCell scope.closure index) v
  | .defaultEnv => .error (.defect .assignedEnvironment)
  | .global name env => do
    match ← s.readSymbol scope env with
    | .table t => return s.modifyHeap fun h => h.modifyTable t fun table => table.setString name v
    | other => throw (.raise (.indexOf other.typeName))

/-- The open cell of a frame for a slot. -/
def findOpenCell (s : State ν) (f : Frame) (slot : Nat) : Option CellId :=
  f.cells.find? fun c => (s.cell c).slot? == some slot

/-- Closes the cells of a frame whose slots satisfy `p`. Answers those that stay open. -/
def closeCells (s : State ν) (p : Nat → Bool) : List CellId → List CellId × State ν
  | [] => ([], s)
  | c :: rest =>
    match (s.cell c).slot? with
    | some slot =>
      if p slot then (s.closeCell c).closeCells p rest
      else
        let (kept, s) := s.closeCells p rest
        (c :: kept, s)
    | none => s.closeCells p rest

end State

namespace Exec

variable {ν : Type}

/-- The frame that runs now. -/
def topFrame? : Exec ν (Option Frame) := do return (← get).processor.frames.back?

/-- Replaces the frame that runs now. -/
def setTopFrame (f : Frame) : Exec ν Unit :=
  modify fun s => s.modifyFrames fun frames => frames.setIfInBounds (frames.size - 1) f

def readSymbol (scope : Scope) (sym : Symbol) : Exec ν Value := do
  ofExcept ((← get).readSymbol scope sym)

def writeSymbol (scope : Scope) (sym : Symbol) (v : Value) : Exec ν Unit := do
  set (← ofExcept ((← get).writeSymbol scope v sym))

/-- The cell for a slot of the running frame, made when the slot is first captured, so that all
closures over it share one cell. -/
def captureSlot (slot : Nat) : Exec ν CellId := do
  match ← topFrame? with
  | none => defect .captureWithoutFrame
  | some frame =>
    let s ← get
    match s.findOpenCell frame slot with
    | some c => return c
    | none =>
      let (c, s) := s.newCell (.opened s.current slot)
      set s
      setTopFrame { frame with cells := frame.cells ++ [c] }
      return c

/-- The cell that a new closure captures for a symbol. -/
def captureSymbol (scope : Scope) : Symbol → Exec ν CellId
  | .slot index _ => captureSlot (scope.base + index)
  | .upvalue index _ => do ofExcept ((← get).upvalueCell scope.closure index)
  | .defaultEnv => do
    let s ← get
    let (c, s) := s.newCell (.closed (.table s.world.globals))
    set s
    return c
  | .global name _ => defect (.capturedGlobal name)

def captureAll (scope : Scope) : List Symbol → Exec ν (List CellId)
  | [] => return []
  | sym :: rest => do
    let c ← captureSymbol scope sym
    return c :: (← captureAll scope rest)

/-- Pushes a closure over a nested function. -/
def makeClosure (scope : Scope) (index : Nat) : Exec ν Unit := do
  match ((← get).closure scope.closure).proto.protos[index]? with
  | none => defect (.functionOutOfRange index)
  | some child =>
    let cells ← captureAll scope child.upvalues
    let (f, s) := (← get).newClosure ⟨child, cells.toArray⟩
    set s
    push f

/-- Closes the cells of local slots and resets the slots, so that a later capture is a new
variable. -/
def closeLocals (scope : Scope) (first last : Nat) : Exec ν Unit := do
  match ← topFrame? with
  | none => defect .closeWithoutFrame
  | some frame =>
    let low := scope.base + first
    let high := scope.base + last
    let (kept, s) := (← get).closeCells (fun slot => low ≤ slot && slot ≤ high) frame.cells
    set s
    setTopFrame { frame with cells := kept }
    modify fun s => s.modifyStack fun stack => stack.clearSlots low high

/-- Pops the frame on top, closing its cells and dropping its slots. -/
def popFrame : Exec ν Frame := do
  match ← topFrame? with
  | none => defect .executionUnderflow
  | some frame =>
    modify fun s => s.modifyFrames Array.pop
    if frame.isNative then
      truncate frame.base
      return frame
    else
      let (kept, s) := (← get).closeCells (fun slot => frame.base ≤ slot) frame.cells
      set s
      truncate (frame.base - 1)
      return { frame with cells := kept }

end Exec

end ScriptMachine
