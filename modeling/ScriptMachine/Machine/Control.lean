import ScriptMachine.Machine.Operator
import ScriptMachine.Machine.Program

/-!
# Control

What a machine is doing, and who waits for the outcome.

Loops, native calls, handlers and coroutines nest in each other without bound. `Kont` is the list
of those that wait, the innermost first; its index says whether it waits for a value or for a step
of a loop.
-/

namespace ScriptMachine

/-- Why a processor stopped before its entry frame returned. -/
inductive Suspension
  | yield (value : Value)
  | forced
  | await (task : Task)
deriving Inhabited

/-- The outcome of a call as a loop sees it. -/
inductive Step
  /-- The top frame goes on at this instruction. -/
  | proceed (ip : Nat)
  /-- The entry frame returned. -/
  | return (value : Value)
  | suspend (suspension : Suspension)
deriving Inhabited

/-- What a continuation waits for. -/
inductive Awaited
  | value
  | step
deriving DecidableEq

/-- Whether a resumption may be suspended on host tasks. -/
inductive ResumeMode
  | synchronous
  | asynchronous
deriving DecidableEq, Inhabited, Repr

/-- Those who wait for an outcome. -/
inductive Kont (ν : Type) : Awaited → Type
  /-- The host. -/
  | host : Kont ν .value
  /-- A routine that made a call. -/
  | routine (next : Except Fault Value → Program ν) (k : Kont ν .value) : Kont ν .value
  /-- The native frame on top, for its own result. -/
  | native (k : Kont ν .step) : Kont ν .value
  /-- A frame that is already popped, for its result. -/
  | finish (frame : Frame) (k : Kont ν .step) : Kont ν .value
  /-- The instruction at an address, for a call inside it. -/
  | instruction (after : After) (ip : Nat) (k : Kont ν .step) : Kont ν .value
  /-- The unwinder, for a decorator; others follow before any frame is popped. -/
  | decorator (error : ScriptError) (others : List Value) (caught : Bool) (mark : Mark)
      (k : Kont ν .step) : Kont ν .value
  /-- One who wants the result as a scalar. -/
  | collapse (k : Kont ν .value) : Kont ν .value
  /-- A method call, for its method. -/
  | method (object : Value) (name : String) (arguments : List Value) (k : Kont ν .value) :
      Kont ν .value
  /-- An asynchronous method call, for its method. -/
  | asyncMethod (object : Value) (arguments : List Value) (k : Kont ν .value) : Kont ν .value
  /-- The end of a call by the host. -/
  | exit (k : Kont ν .value) : Kont ν .value
  /-- A suspended processor, for a task. -/
  | task (c : ThreadId) (k : Kont ν .step) : Kont ν .value
  /-- A loop, for the outcome of the instruction at an address. -/
  | loop (mark : Mark) (ip : Nat) (k : Kont ν .step) : Kont ν .step
  /-- A requested call with an error handler, as long as no frame stands for it. -/
  | protect (frame : Frame) (handler : NativeId) (mark : Mark) (k : Kont ν .step) : Kont ν .step
  /-- A call nested in an activation. -/
  | nested (k : Kont ν .value) : Kont ν .step
  /-- An asynchronous call, with the mode to go back to. -/
  | drive (previous : Bool) (k : Kont ν .value) : Kont ν .step
  /-- A resumption of a coroutine, with the processor to go back to. -/
  | resumed (mode : ResumeMode) (c previous : ThreadId) (k : Kont ν .value) : Kont ν .step

/-- What a machine does next. -/
inductive Control (ν : Type)
  /-- Executes an instruction of the top frame. -/
  | execute (ip : Nat) (mark : Mark) (k : Kont ν .step)
  /-- Runs a host routine. -/
  | run (program : Program ν) (k : Kont ν .value)
  /-- Hands a step to who waits for it. -/
  | step (outcome : Except Fault Step) (k : Kont ν .step)
  /-- Hands a value to who waits for it. -/
  | value (outcome : Except Fault Value) (k : Kont ν .value)
  /-- Waits for a host task. -/
  | await (task : Task) (k : Kont ν .value)

/-- A change of state that cannot fail. -/
abbrev Move (ν : Type) := StateM (State ν)

/-- Does fallible work and goes on with its result or its fault. -/
def Exec.andThen {ν α : Type} (work : Exec ν α) (ok : α → Move ν (Control ν))
    (error : Fault → Move ν (Control ν)) : Move ν (Control ν) := fun s =>
  match work s with
  | .ok a s => ok a s
  | .error e s => error e s

end ScriptMachine
