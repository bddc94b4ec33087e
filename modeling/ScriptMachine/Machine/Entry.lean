import ScriptMachine.Chunk.Writer
import ScriptMachine.Machine.Run

/-!
# Entering a machine

What a host does with a machine: it calls functions and methods, resumes coroutines, and waits for
the outcome. Calls may be synchronous, or suspended on host tasks.
-/

namespace ScriptMachine

namespace State

variable {ν : Type}

/-- A machine without coroutines or running calls, whose natives start with the two iterators. -/
def initial (options : Options) : State ν :=
  let (globals, heap) := ({} : Heap).newTable .empty
  { world := { heap, globals, natives := #[⟨"next", .tableNext⟩, ⟨"range", .rangeNext⟩] }
    options }

/-- The bytes of a script function that captures nothing but its environment. -/
def dump (s : State ν) (v : Value) : Except Fault (List UInt8) :=
  match v with
  | .function f =>
    let p := (s.closure f).proto
    if p.capturesOnlyEnvironment then Chunk.dump s.heap p else .error (.raise .dumpWithUpvalues)
  | other => .error (.raise (.undumpable other.typeName))

/-- Names a source. Answers its number. -/
def registerSource (s : State ν) (name : String) : Nat × State ν :=
  (s.world.sources.size,
   { s with world := { s.world with sources := s.world.sources.push name } })

end State

namespace World

variable {ν : Type}

/-- Sets or takes away the metatable shared by the values of a kind. -/
def setTypeMetatable (w : World ν) (k : Kind) (metatable : Option TableId) : World ν :=
  let others := w.typeMetatables.filter fun entry => entry.1 != k
  { w with typeMetatables := (metatable.map fun t => (k, t)).toList ++ others }

/-- Sets a global. -/
def setGlobal (w : World ν) (name : String) (v : Value) : World ν :=
  { w with heap := w.heap.modifyTable w.globals fun t => t.setString name v }

end World

namespace Machine

variable {ν : Type}

/-! ## What a host asks for -/

/-- Calls a function and waits for its result. -/
def call (library : Library ν) (function : Value) (arguments : List Value) :
    Move ν (Control ν) := do
  enter
  callNested library function arguments (.exit .host)

/-- Calls a method of an object. -/
def thisCall (library : Library ν) (object : Value) (method : String) (arguments : List Value) :
    Move ν (Control ν) := do
  enter
  indexNested library object (.string method) (.method object method arguments (.exit .host))

/-- Calls a function; host tasks suspend the call. -/
def callAsync (library : Library ν) (function : Value) (arguments : List Value) :
    Move ν (Control ν) := do
  enter
  driveAsync library function arguments (.exit .host)

/-- Calls a method of an object; host tasks suspend the call. -/
def thisCallAsync (library : Library ν) (object : Value) (method : String)
    (arguments : List Value) : Move ν (Control ν) := do
  enter
  indexNested library object (.string method) (.asyncMethod object arguments (.exit .host))

/-- Resumes a coroutine. -/
def hostResume (library : Library ν) (mode : ResumeMode) (c : ThreadId)
    (arguments : List Value) : Move ν (Control ν) :=
  resume library mode c arguments .host

/-- Gives up a suspended call: everything that runs is dropped. -/
def timeOut (milliseconds : Nat) : Move ν (Except Fault Value) := do
  abandon {}
  modify fun s => s.modifyProcessor fun p =>
    { p with pending := none, asyncMode := false, nestedCalls := 0 }
  leave
  return .error (.raise (.timedOut milliseconds))

/-! ## Outcomes -/

/-- How a run ended. -/
inductive Ending
  | done (outcome : Except Fault Value)
  /-- The call waits for a task that never settles. -/
  | stalled
  /-- The steps did not suffice. -/
  | exhausted
deriving Inhabited

/-- How the run of a machine has ended. -/
def ending (m : Machine ν) : Ending :=
  match m.control with
  | .value outcome .host => .done outcome
  | .await .never _ => .stalled
  | _ => .exhausted

/-- Does what a host asks for, in at most so many steps. -/
def perform? (library : Library ν) (steps : Nat) (request : Move ν (Control ν)) (s : State ν) :
    Ending × State ν :=
  let (control, state) := request s
  let m := run library steps ⟨control, state⟩
  (m.ending, m.state)

end Machine

end ScriptMachine
