import ScriptMachine.Machine.Control
import ScriptMachine.Machine.Metatable
import ScriptMachine.Machine.Variable

/-!
# Calls

How frames are entered and left.

* `performCall` enters a function, or the handler that stands in for it. A native function runs at
  once.
* `finishFrame` hands on the result of a popped frame. A native function may have returned a
  request instead, which is acted on here.
* `resumePending` picks up a suspended processor.
-/

namespace ScriptMachine.Machine

variable {ν : Type}

/-- Calls may be nested in a processor's activations at most this deep. -/
def maxNestedCalls : Nat := 128

/-- The heights of both stacks now. -/
def mark (s : State ν) : Mark := ⟨s.processor.frames.size, s.processor.stack.size⟩

/-- Runs a native function. -/
def invoke (library : Library ν) (f : NativeId) (operands : List Value) (isMethod : Bool)
    (k : Kont ν .value) : Move ν (Control ν) := do
  let native := (← get).native f
  return .run (.ofRoutine library native.routine ⟨native.name, .ofOperands operands isMethod⟩) k

/-! ## Entering -/

/-- Follows `__call` from the value below the operands until there is a function, which then sits
there, with the objects on the way in front of the operands. -/
def findCallee (name : Option String) : Nat → Nat → Exec ν (Callee × Nat)
  | budget, argc => do
    match ← Exec.peek argc with
    | .function c => return (.script c, argc)
    | .native n => return (.native n, argc)
    | other =>
      match budget with
      | 0 => Exec.raise .callChainTooLong
      | budget + 1 =>
        match (← get).unaryMetamethod other "__call" with
        | none => Exec.raise (.callOf other.typeName name)
        | some handler =>
          let operands ← Exec.splitOff ((← Exec.height) - argc - 1)
          Exec.push handler
          Exec.pushAll operands
          findCallee name budget (argc + 1)

/-- What was entered. -/
inductive Entered
  | script
  | native (routine : NativeId) (operands : List Value)

/-- Pushes the frame of a call. The operands of a native function leave the stack. -/
def enterCall (spec : CallSpec) : Exec ν Entered := do
  let (callee, argc) ← findCallee spec.name (← get).options.maxCallChain spec.argc
  let frame (base : Nat) : Frame :=
    { base, argc, returnAddress := spec.returnAddress, callee, name := spec.name,
      handlers := spec.handlers, flags := spec.flags }
  match callee with
  | .script _ =>
    let s ← get
    if s.options.maxCallDepth ≤ s.callDepth then Exec.raise .stackOverflow
    else
      let height ← Exec.height
      modify fun s => s.modifyFrames (·.push (frame (height - argc)))
      return .script
  | .native n =>
    let operands ← Exec.splitOff ((← Exec.height) - argc)
    let _ ← Exec.pop
    let height ← Exec.height
    modify fun s => s.modifyFrames (·.push (frame height))
    return .native n operands

/-- Calls the value below the operands. -/
def performCall (library : Library ν) (spec : CallSpec) (k : Kont ν .step) : Move ν (Control ν) :=
  (enterCall spec).andThen
    (fun
      | .script => return .step (.ok (.proceed 0)) k
      | .native n operands => invoke library n operands spec.flags.methodCall (.native k))
    (fun e => return .step (.error e) k)

/-- Calls a function in a loop of its own. -/
def executeCall (library : Library ν) (function : Value) (arguments : List Value)
    (flags : FrameFlags) (name : Option String) (k : Kont ν .step) : Move ν (Control ν) := do
  let mark := mark (← get)
  modify fun s => s.modifyStack fun stack => (stack.push function).pushAll arguments
  performCall library
    { argc := arguments.length, returnAddress := 0, flags := flags.union { entryPoint := true },
      name }
    (.loop mark 0 k)

/-- Counts a nested call in. -/
def beginNested : Move ν Unit :=
  modify fun s => s.modifyProcessor fun p => { p with nestedCalls := p.nestedCalls + 1 }

def endNested : Move ν Unit :=
  modify fun s => s.modifyProcessor fun p => { p with nestedCalls := p.nestedCalls - 1 }

/-- Calls a function from inside an activation and waits for its result. -/
def callNested (library : Library ν) (function : Value) (arguments : List Value)
    (k : Kont ν .value) : Move ν (Control ν) := do
  if maxNestedCalls ≤ (← get).processor.nestedCalls then
    return .value (.error (.raise .tooManyNestedCalls)) k
  else
    beginNested
    executeCall library function arguments {} none (.nested k)

/-- Indexes an object and waits for the result. -/
def indexNested (library : Library ν) (object key : Value) (k : Kont ν .value) :
    Move ν (Control ν) := do
  match (← get).resolveIndex key State.maxChain object with
  | .ok (.value v) => return .value (.ok v) k
  | .ok (.call handler receiver) => callNested library handler [receiver, key] (.collapse k)
  | .error e => return .value (.error e) k

/-- What a call that may not be suspended makes of a step. -/
def expectReturn : Except Fault Step → Except Fault Value
  | .ok (.return v) => .ok v
  | .ok (.suspend _) => .error (.defect .suspensionEscaped)
  | .ok (.proceed _) => .error (.defect .loopLeftEarly)
  | .error e => .error e

/-! ## Leaving -/

/-- Gives a result to the caller of a frame. -/
def deliver (flags : FrameFlags) (returnAddress : Nat) (v : Value) (k : Kont ν .step) :
    Move ν (Control ν) := do
  let v := if flags.scalarResult then v.scalar else v
  if flags.entryPoint then return .step (.ok (.return v)) k
  else
    if !flags.discardResult then modify fun s => s.modifyStack (·.push v)
    return .step (.ok (.proceed returnAddress)) k

/-- The frame without its handlers. -/
def disarmed (frame : Frame) : Frame := { frame with handlers := {} }

/-- Makes a requested call in place of the native frame that asked for it. The request's handlers
go with the call; a frame that has handlers itself passes them on to a request without. -/
def performTailRequest (library : Library ν) (frame : Frame) (request : TailCall)
    (k : Kont ν .step) : Move ν (Control ν) := do
  let own : Handlers := ⟨request.continuation, request.errorHandler, request.decorator⟩
  if !frame.handlers.isEmpty && !own.isEmpty then
    return .step (.error (.defect .handlersTwice)) k
  else
    let handlers := if frame.handlers.isEmpty then own else frame.handlers
    let flags := frame.flags.inherited
    let mark := mark (← get)
    modify fun s => s.modifyStack fun stack =>
      (stack.push request.function).pushAll request.arguments
    let k := match handlers.errorHandler with
      | some handler =>
        .protect { disarmed frame with flags } handler mark k
      | none => k
    performCall library
      { argc := request.arguments.length, returnAddress := frame.returnAddress, flags, handlers,
        name := frame.name } k

/-- Stops a processor until someone resumes it with a result for the frame. -/
def suspendOn (frame : Frame) (suspension : Suspension) (k : Kont ν .step) :
    Move ν (Control ν) := do
  modify fun s => s.modifyProcessor fun p => { p with pending := some (.deliver frame, {}) }
  return .step (.ok (.suspend suspension)) k

/-- Yields from a coroutine, which is possible outside nested calls only. -/
def suspendForYield (frame : Frame) (values : List Value) (k : Kont ν .step) :
    Move ν (Control ν) := do
  let s ← get
  if !s.inCoroutine then return .step (.error (.raise .yieldOutsideCoroutine)) k
  else if 0 < s.processor.nestedCalls then return .step (.error (.raise .yieldAcrossNative)) k
  else suspendOn frame (.yield (Value.ofList values)) k

/-- Waits for a host task: suspended in asynchronous mode, or on the spot where that is allowed. -/
def handleAwait (frame : Frame) (request : RequestId) (k : Kont ν .step) : Move ν (Control ν) := do
  let s ← get
  match s.heap.takeTask request with
  | .error e => return .step (.error e) k
  | .ok (task, heap) =>
    set (s.setHeap heap)
    if s.processor.asyncMode && s.processor.nestedCalls == 0 then suspendOn frame (.await task) k
    else if s.options.autoAwait then return .await task (.finish frame k)
    else return .step (.error (.raise .awaitInSynchronousCall)) k

/-- Hands on the result of a popped frame. The result of a native function may be a request. -/
def finishFrame (library : Library ν) (frame : Frame) (v : Value) (fromNative : Bool)
    (k : Kont ν .step) : Move ν (Control ν) := do
  match fromNative, v with
  | true, .tailCall r => performTailRequest library frame ((← get).heap.tailCall r) k
  | true, .yield r => suspendForYield frame ((← get).heap.yielded r) k
  | true, .await r => handleAwait frame r k
  | _, _ =>
    match frame.handlers.continuation with
    | some f => invoke library f v.items false (.finish (disarmed frame) k)
    | none => deliver frame.flags frame.returnAddress v k

/-! ## Resuming -/

/-- Picks up a suspended processor with the value it is resumed with, or the outcome of the task it
waited for. Only the latter may be a request. -/
def resumePending (library : Library ν) (input : Except Fault Value) (fromTask : Bool)
    (k : Kont ν .step) : Move ν (Control ν) := do
  match (← get).processor.pending with
  | none => return .step (.error (.defect .nothingSuspended)) k
  | some (resumption, mark) =>
    modify fun s => s.modifyProcessor fun p => { p with pending := none, sinceResume := 0 }
    match resumption with
    | .instruction ip => return .execute ip mark k
    | .deliver frame =>
      let k := .loop mark (frame.returnAddress - 1) k
      match input with
      | .ok v => finishFrame library frame v fromTask k
      | .error e => return .step (.error e) k

end ScriptMachine.Machine
