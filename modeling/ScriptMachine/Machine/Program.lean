import ScriptMachine.Host.Arguments
import ScriptMachine.Machine.State

/-!
# Host routines

What a host routine does, as a program over the operations that the machine offers it. A routine
changes the world and looks at the state as it likes; the stacks it reaches only through calls.
-/

namespace ScriptMachine

/-- What a routine does next. Each operation hands its outcome to the rest of the program. -/
inductive Program (ν : Type)
  | finish (outcome : Except Fault Value)
  /-- Changes the world. -/
  | change (action : World ν → Except Fault Value × World ν)
      (next : Except Fault Value → Program ν)
  /-- Looks at the state. -/
  | ask (query : State ν → Except Fault Value) (next : Except Fault Value → Program ν)
  /-- Shows values to the host. -/
  | print (values : List Value) (next : Program ν)
  /-- Makes a coroutine. -/
  | spawn (function : Value) (next : Except Fault Value → Program ν)
  /-- Sets the instructions between forced yields of a coroutine. -/
  | autoYield (c : ThreadId) (budget : Nat) (next : Program ν)
  /-- Makes a function from its bytes. -/
  | undump (bytes : List UInt8) (next : Except Fault Value → Program ν)
  /-- Assigns a variable by its name. -/
  | assign (name : String) (value : Value) (next : Except Fault Value → Program ν)
  /-- Calls a function and waits for its result. -/
  | call (function : Value) (arguments : List Value) (next : Except Fault Value → Program ν)
  /-- Indexes an object, metamethods included. -/
  | index (object key : Value) (next : Except Fault Value → Program ν)
  /-- Resumes a coroutine until it yields or ends. -/
  | resume (c : ThreadId) (arguments : List Value) (next : Except Fault Value → Program ν)
  /-- Enters the processor again as a host would. -/
  | enter (function : Value) (arguments : List Value) (next : Except Fault Value → Program ν)
  /-- Enters the processor again with a method call. -/
  | enterMethod (object : Value) (method : String) (arguments : List Value)
      (next : Except Fault Value → Program ν)
  /-- Enters the processor again with a call that may be suspended. -/
  | enterAsync (function : Value) (arguments : List Value)
      (next : Except Fault Value → Program ν)
deriving Inhabited

/-- How a routine is called. -/
structure Invocation where
  name : String
  arguments : Arguments
deriving Inhabited

/-- The routines that the host brings along. -/
abbrev Library (ν : Type) := ν → Invocation → Program ν

namespace Program

variable {ν : Type}

def reply (v : Value) : Program ν := .finish (.ok v)

def fail (e : Fault) : Program ν := .finish (.error e)

/-- Goes on with a result, or fails as it failed. -/
def andThen {α : Type} (r : Except Fault α) (next : α → Program ν) : Program ν :=
  match r with
  | .ok a => next a
  | .error e => fail e

/-- Steps through a table: the key and value after a key, or nil at the end. -/
def tableNext (i : Invocation) : Program ν :=
  andThen (i.arguments.check 0 "next" .table {}) fun v =>
    .ask (fun s =>
      match v.asTable with
      | some t =>
        match (s.heap.table t).next (i.arguments.get 1).scalar with
        | .ok (some (key, value)) => .ok (Value.ofList [key, value])
        | .ok none => .ok .nil
        | .error cause => .error (.raise cause)
      | none => .error (.defect (.reported "checked table argument"))) .finish

/-- Steps through a range: the number after a number, or nil at the end. -/
def rangeNext (i : Invocation) : Program ν :=
  match i.arguments.get 0 with
  | .range r =>
    match r.next (i.arguments.get 1).asNumber with
    | some n => reply (.number n)
    | none => reply .nil
  | other => fail (.raise (.badArgument 1 "range" "range" other.foundName))

/-- The program of a routine. -/
def ofRoutine (library : Library ν) (routine : Routine ν) (i : Invocation) : Program ν :=
  match routine with
  | .tableNext => tableNext i
  | .rangeNext => rangeNext i
  | .host r => library r i

end Program

end ScriptMachine
