import ScriptMachine.Chunk.Reader
import ScriptMachine.Machine.Coroutine
import ScriptMachine.Machine.Debugger
import ScriptMachine.Machine.Execute
import ScriptMachine.Machine.Unwind

/-!
# Running

One step of a machine, and runs of many steps.

`step` is total and leaves a machine that has nothing to do as it is; `run` makes at most so many
steps.
-/

namespace ScriptMachine

/-- A machine at one moment. -/
structure Machine (ν : Type) where
  control : Control ν
  state : State ν

namespace Exec

variable {ν : Type}

/-- Makes a function of a compiled one. Only environments can be captured here. -/
def load (p : Proto) : Exec ν Value := do
  match p.upvalues.find? fun sym => !sym.isEnvironment with
  | some sym => raise (.unboundUpvalue p.name sym.name)
  | none =>
    let cells ← captureAll default (p.upvalues.map fun _ => .defaultEnv)
    let (f, s) := (← get).newClosure ⟨p, cells.toArray⟩
    set s
    return f

/-- Makes a function from its bytes. -/
def undump (bytes : List UInt8) : Exec ν Value := do
  let s ← get
  let (p, heap) ← ofExcept (Chunk.undump s.heap bytes)
  set (s.setHeap heap)
  load p

/-- The running closure and its code. -/
def runningScope : Exec ν (Proto × Scope) := do
  match ← topFrame? with
  | none => defect .emptyExecutionStack
  | some frame =>
    let s ← get
    match frame.callee with
    | .native n => defect (.nativeFrameOnTop (s.native n).name)
    | .script c => return ((s.closure c).proto, ⟨c, frame.base⟩)

def fetch (p : Proto) (ip : Nat) : Exec ν Instruction :=
  match p.code[ip]? with
  | some i => return i
  | none => defect (.instructionOutOfRange ip p.name)

/-- Counts an instruction against the limit of the whole tree. -/
def countInstruction : Exec ν Unit := do
  let s ← get
  let count := s.instructionCount + 1
  set { s with instructionCount := count }
  match s.options.instructionLimit with
  | some limit => if limit < count then throw .instructionLimit
  | none => return ()

/-- Counts an instruction against the share of a coroutine. Answers whether the share is used up,
in which case the instruction is executed after the next resumption. -/
def shareUsedUp (ip : Nat) : Exec ν Bool := do
  let s ← get
  let p := s.processor
  if 0 < p.autoYield && s.isYieldable then
    if p.autoYield < p.sinceResume + 1 then
      modify fun s => s.modifyProcessor fun p =>
        { p with sinceResume := 0, pending := some (.instruction ip, {}) }
      return true
    else
      modify fun s => s.modifyProcessor fun p => { p with sinceResume := p.sinceResume + 1 }
      return false
  else return false

/-- Executes the instruction at an address of the top frame, unless a yield is forced. -/
def executeAt (ip : Nat) : Exec ν (Option Effect) := do
  let (p, scope) ← runningScope
  let i ← fetch p ip
  countInstruction
  if ← shareUsedUp ip then return none
  else
    checkpoint p ip
    return some (← execute p scope ip i)

/-- Sets the share of a coroutine, unless the coroutine is running. -/
def setAutoYield (c : ThreadId) (budget : Nat) : Move ν Unit :=
  modify fun s =>
    if s.coroutineState c = .running then s
    else s.modifyProcessorOf c fun p => { p with autoYield := budget }

end Exec

namespace Machine

variable {ν : Type}

/-- What an instruction asked for. -/
def perform (library : Library ν) (ip : Nat) (mark : Mark) (k : Kont ν .step) :
    Option Effect → Move ν (Control ν)
  | none => return .step (.ok (.suspend .forced)) k
  | some .next => return .execute (ip + 1) mark k
  | some (.jump target) => return .execute target mark k
  | some (.call spec) => performCall library spec (.loop mark ip k)
  | some (.leave frame v) => finishFrame library frame v false (.loop mark ip k)
  | some (.nested function arguments after) =>
    callNested library function arguments (.instruction after ip (.loop mark ip k))

/-- Starts an asynchronous call on an idle processor. -/
def driveAsync (library : Library ν) (function : Value) (arguments : List Value)
    (k : Kont ν .value) : Move ν (Control ν) := do
  let p := (← get).processor
  if 0 < p.nestedCalls || 0 < p.frames.size then
    return .value (.error (.raise .processorBusy)) k
  else
    setAsync true
    executeCall library function arguments {} none (.drive p.asyncMode k)

/-- Calls a method that was found. -/
def callMethod (library : Library ν) (object : Value) (name : String) (arguments : List Value)
    (method : Value) (k : Kont ν .value) : Move ν (Control ν) := do
  beginNested
  executeCall library method (object :: arguments) { methodCall := true } (some name) (.nested k)

/-- One operation of a host routine. -/
def runProgram (library : Library ν) (k : Kont ν .value) : Program ν → Move ν (Control ν)
  | .finish outcome => return .value outcome k
  | .change action next => do
    let s ← get
    let (outcome, world) := action s.world
    set { s with world }
    return .run (next outcome) k
  | .ask query next => return .run (next (query (← get))) k
  | .print values next => do
    modify fun s => s.record (.printed (Snapshot.ofValues s.scene values))
    return .run next k
  | .spawn function next => direct (Exec.spawn function) next
  | .autoYield c budget next => do
    Exec.setAutoYield c budget
    return .run next k
  | .undump bytes next => direct (Exec.undump bytes) next
  | .assign name v next => direct (do Exec.assignAll [(name, v)]; return .void) next
  | .call function arguments next => callNested library function arguments (.routine next k)
  | .index object key next => indexNested library object key (.routine next k)
  | .resume c arguments next => resume library .synchronous c arguments (.routine next k)
  | .enter function arguments next => do
    enter
    callNested library function arguments (.exit (.routine next k))
  | .enterMethod object method arguments next => do
    enter
    indexNested library object (.string method)
      (.method object method arguments (.exit (.routine next k)))
  | .enterAsync function arguments next => do
    enter
    driveAsync library function arguments (.exit (.routine next k))
where
  /-- Work that is done on the spot. -/
  direct (work : Exec ν Value) (next : Except Fault Value → Program ν) : Move ν (Control ν) :=
    work.andThen (fun v => return .run (next (.ok v)) k) (fun e => return .run (next (.error e)) k)

/-- Hands a value to who waits for it. -/
def handValue (library : Library ν) (outcome : Except Fault Value) :
    Kont ν .value → Move ν (Control ν)
  | .host => return .value outcome .host
  | .routine next k => return .run (next outcome) k
  | .native k =>
    match outcome with
    | .ok v =>
      Exec.popFrame.andThen (fun frame => finishFrame library frame v true k)
        (fun e => return .step (.error e) k)
    | .error e => return .step (.error e) k
  | .finish frame k =>
    match outcome with
    | .ok v => finishFrame library frame v true k
    | .error e => return .step (.error e) k
  | .instruction after ip k =>
    match outcome with
    | .ok v =>
      (Exec.finishNested after v).andThen (fun _ => return .step (.ok (.proceed (ip + 1))) k)
        (fun e => return .step (.error e) k)
    | .error e => return .step (.error e) k
  | .decorator error others caught mark k => do
    runDecorators library (applyDecorator (← get).heap error outcome) caught mark k others
  | .collapse k => return .value (outcome.map Value.scalar) k
  | .method object name arguments k =>
    match outcome with
    | .ok method => callMethod library object name arguments method k
    | .error e => return .value (.error e) k
  | .asyncMethod object arguments k =>
    match outcome with
    | .ok method => driveAsync library method (object :: arguments) k
    | .error e => return .value (.error e) k
  | .exit k => do
    leave
    return .value outcome k
  | .task c k => do
    modify fun s => { s with current := c }
    resumePending library outcome true k

/-- Hands a step to who waits for it. -/
def handStep (library : Library ν) (outcome : Except Fault Step) :
    Kont ν .step → Move ν (Control ν)
  | .loop mark ip k =>
    match outcome with
    | .ok (.proceed next) => return .execute next mark k
    | .ok other => return .step (.ok other) k
    | .error e => unwind library e ip mark k
  | .protect frame handler mark k =>
    match outcome with
    | .error (.script e) => do
      if (← get).callDepth = mark.frames then
        modify fun s => s.modifyStack (·.truncate mark.stack)
        invoke library handler [messageValue e] false (.finish frame k)
      else return .step (.error (.script e)) k
    | other => return .step other k
  | .nested k => do
    endNested
    return .value (expectReturn outcome) k
  | .drive previous k =>
    match outcome with
    | .ok (.suspend (.await task)) => do
      return .await task (.task (← get).current (.drive previous k))
    | other => do
      setAsync previous
      return .value (expectReturn other) k
  | .resumed mode c previous k =>
    match mode, outcome with
    | .asynchronous, .ok (.suspend (.await task)) => do
      modify fun s => { s with current := previous }
      return .await task (.task c (.resumed mode c previous k))
    | _, other => endResume mode c previous other k

/-- What the control asks for. -/
def advance (library : Library ν) : Control ν → Move ν (Control ν)
  | .execute ip mark k =>
    (Exec.executeAt ip).andThen (fun effect => perform library ip mark k effect)
      (fun e => unwind library e ip mark k)
  | .run program k => runProgram library k program
  | .step outcome k => handStep library outcome k
  | .value outcome k => handValue library outcome k
  | .await (.settles outcome) k => return .value outcome k
  | .await .never k => return .await .never k

/-- One step. -/
def step (library : Library ν) (m : Machine ν) : Machine ν :=
  let (control, state) := advance library m.control m.state
  ⟨control, state⟩

/-- The host has its outcome, or waits for a task that never settles. -/
def isHalted (m : Machine ν) : Bool :=
  match m.control with
  | .value _ .host => true
  | .await .never _ => true
  | _ => false

/-- At most so many steps, until the machine has halted. -/
def run (library : Library ν) : Nat → Machine ν → Machine ν
  | 0, m => m
  | fuel + 1, m => if m.isHalted then m else run library fuel (m.step library)

end Machine

end ScriptMachine
