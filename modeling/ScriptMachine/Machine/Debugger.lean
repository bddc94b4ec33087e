import ScriptMachine.Machine.Variable

/-!
# Debugging

Variables by name, watch expressions, and stops.

A name is resolved as a compiler would at the place where execution is: the innermost local, then a
captured variable, then a global of the environment in scope.
-/

namespace ScriptMachine

/-- An expression over variables, which has no side effects. -/
inductive WatchExpr
  | constant (value : Value)
  | variable (name : String)
  | index (object key : WatchExpr)
  | call (function : WatchExpr)
deriving Inhabited

namespace State

variable {ν : Type}

/-- The innermost script frame. -/
def scope? (s : State ν) : Option Scope :=
  s.processor.frames.toList.reverse.findSome? fun frame =>
    frame.closure?.map fun closure => ⟨closure, frame.base⟩

/-- The last local of a name. -/
def findLocal (p : Proto) (name : String) : Option Symbol :=
  p.locals.reverse.find? fun sym => sym.name == name

/-- The captured variable of a name. -/
def findUpvalue (p : Proto) (name : String) : Option Symbol :=
  (p.upvalues.findIdx? fun sym => sym.name == name).map fun i => .upvalue i name

/-- The symbol of a name where execution is. -/
def findSymbol (s : State ν) (name : String) : Symbol :=
  match s.scope? with
  | none => .global name .defaultEnv
  | some scope =>
    let p := (s.closure scope.closure).proto
    match findLocal p name <|> findUpvalue p name with
    | some sym => sym
    | none =>
      let env := findLocal p Symbol.envName <|> findUpvalue p Symbol.envName
      .global name (env.getD .defaultEnv)

/-- The value of a symbol where execution is. Without a running function there are only globals. -/
def symbolValue (s : State ν) (sym : Symbol) : Except Fault Value :=
  match s.scope? with
  | some scope => s.readSymbol scope sym
  | none =>
    match sym with
    | .defaultEnv => .ok (.table s.world.globals)
    | .global name .defaultEnv => .ok ((s.heap.table s.world.globals).getString name)
    | other => .error (.watch (.inaccessible other.name))

/-- Assigns a symbol where execution is. -/
def assignSymbol (s : State ν) (sym : Symbol) (v : Value) : Except Fault (State ν) :=
  match s.scope? with
  | some scope => s.writeSymbol scope v sym
  | none =>
    match sym with
    | .global name .defaultEnv =>
      .ok (s.modifyHeap fun h => h.modifyTable s.world.globals fun t => t.setString name v)
    | other => .error (.watch (.unassignable other.name))

/-- The value of a watch expression. Tables are indexed without metamethods; calls are refused. -/
def evaluate (s : State ν) : WatchExpr → Except Fault Value
  | .constant v => .ok v
  | .variable name => s.symbolValue (s.findSymbol name)
  | .index object key => do
    let object ← s.evaluate object
    let key ← s.evaluate key
    match object.scalar with
    | .table t => return (s.heap.table t).get key.scalar
    | other => throw (.watch (.indexed other.typeName))
  | .call _ => .error (.watch .called)

/-- A watched variable as the host sees it. -/
def watch (s : State ν) (name : String) : Except String Snapshot :=
  match s.evaluate (.variable name) with
  | .ok v => .ok (.ofValue s.scene v)
  | .error e => .error e.message

end State

namespace Exec

variable {ν : Type}

/-- Assigns variables by name, until one refuses. -/
def assignAll : List (String × Value) → Exec ν Unit
  | [] => return ()
  | (name, v) :: rest => do
    let s ← get
    set (← ofExcept (s.assignSymbol (s.findSymbol name) v))
    assignAll rest

/-- What a debugger does at a stop: it shows what it watches, assigns, detaches and fails, as it
was told for this stop. -/
def observe (observer : Observer) (stop : Stop) : Exec ν Unit := do
  let hit := observer.hits + 1
  modify fun s => s.setDebugger (some { observer with hits := hit })
  let s ← get
  modify fun s' => s'.record (.stopped stop (observer.watches.map s.watch))
  assignAll ((observer.assignments.filter fun (n, _) => n == hit).map Prod.snd)
  if observer.detachAt = some hit then modify fun s => s.setDebugger none
  if observer.failAt = some hit then throw (.raiseText "stopped by debugger")

/-- Stops for the debugger if there is one and the instruction is a stop. -/
def checkpoint (p : Proto) (ip : Nat) : Exec ν Unit := do
  let s ← get
  match s.world.debugger, p.span? ip with
  | some observer, some span =>
    if span.isStop then
      observe observer ⟨ip, span.fromLine, p.name, s.callDepth⟩
  | _, _ => return ()

end Exec

end ScriptMachine
