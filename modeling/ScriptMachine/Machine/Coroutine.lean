import ScriptMachine.Machine.Call

/-!
# Coroutines

A coroutine runs on a processor of its own. It is resumed until it yields, returns or fails; while
it runs it stands in the list of active coroutines.
-/

namespace ScriptMachine

namespace Exec

variable {ν : Type}

/-- Makes a coroutine of a function. -/
def spawn (function : Value) : Exec ν Value := do
  if function.isFunction then
    let (c, s) := (← get).newCoroutine function
    set s
    return .thread c
  else raise (.badArgument 1 "create" "function" function.foundName)

end Exec

namespace Machine

variable {ν : Type}

/-- Why a coroutine in this state cannot be resumed with these arguments. -/
def resumeRefusal (state : CoroutineState) (arguments : List Value) : Option Cause :=
  match state with
  | .forceSuspended => if arguments.isEmpty then none else some .valuesAfterForcedYield
  | .dead => some .resumeOfDead
  | .running => some .resumeOfRunning
  | .notStarted | .suspended => none

/-- Starts or continues the body of the coroutine that runs now, according to the state it was
in. -/
def resumeFrom (library : Library ν) (function : Value) (state : CoroutineState)
    (arguments : List Value) (k : Kont ν .step) : Move ν (Control ν) := do
  modify fun s => s.modifyProcessor fun p => { p with sinceResume := 0 }
  match state with
  | .notStarted => executeCall library function arguments { resumeEntry := true } none k
  | .suspended => resumePending library (.ok (Value.ofList arguments)) false k
  | .forceSuspended => resumePending library (.ok .void) false k
  | .running | .dead => return .step (.error (.defect (.resumeState state.label))) k

/-- Counts a host call in. -/
def enter : Move ν Unit := modify fun s => { s with entries := s.entries + 1 }

def leave : Move ν Unit := modify fun s => { s with entries := s.entries - 1 }

def setAsync (mode : Bool) : Move ν Unit :=
  modify fun s => s.modifyProcessor fun p => { p with asyncMode := mode }

/-- Resumes a coroutine. One that cannot be resumed stays as it is. -/
def resume (library : Library ν) (mode : ResumeMode) (c : ThreadId) (arguments : List Value)
    (k : Kont ν .value) : Move ν (Control ν) := do
  let s ← get
  let { function, state } := s.coroutine c
  match resumeRefusal state arguments with
  | some cause => return .value (.error (.raise cause)) k
  | none =>
    let previous := s.current
    modify fun s => { s.setCoroutineState c .running with active := c :: s.active, current := c }
    match mode with
    | .synchronous => enter
    | .asynchronous => setAsync true
    resumeFrom library function state arguments (.resumed mode c previous k)

/-- The state a coroutine ends up in after a resumption, and what its resumer gets. -/
def resumeOutcome : Except Fault Step → CoroutineState × Except Fault Value
  | .ok (.return v) => (.dead, .ok v)
  | .ok (.suspend (.yield v)) => (.suspended, .ok v)
  | .ok (.suspend .forced) => (.forceSuspended, .ok .void)
  | .ok (.suspend (.await _)) => (.dead, .error (.defect .taskEscaped))
  | .ok (.proceed _) => (.dead, .error (.defect .coroutineLoopLeftEarly))
  | .error e => (.dead, .error e)

/-- Ends a resumption: the innermost active coroutine leaves the list. -/
def endResume (mode : ResumeMode) (c previous : ThreadId) (outcome : Except Fault Step)
    (k : Kont ν .value) : Move ν (Control ν) := do
  match mode with
  | .synchronous => leave
  | .asynchronous => setAsync false
  let (state, v) := resumeOutcome outcome
  modify fun s =>
    { s.setCoroutineState c state with active := s.active.tail, current := previous }
  return .value v k

end Machine

end ScriptMachine
