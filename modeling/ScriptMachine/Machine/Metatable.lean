import ScriptMachine.Machine.State

/-!
# Metatables

Where a value finds its metamethods, and how a key is followed through them.

* `resolveIndex` follows `__index` from an object until a value is found or a function has to be
  called; both ways of indexing use it.
* `resolveStore` does the same for `__newindex`, and stores when it arrives.
-/

namespace ScriptMachine

namespace State

variable {ν : Type}

/-- The metatable shared by the values of a kind. -/
def typeMetatable (s : State ν) (k : Kind) : Option TableId := s.world.typeMetatables.lookup k

/-- The metatable of a value: its own, or the one of its kind. -/
def metatable (s : State ν) (v : Value) : Option TableId :=
  match v with
  | .table t => (s.heap.table t).metatable
  | .userdata u => (s.heap.object u).metatable <|> s.typeMetatable .userdata
  | .void | .nil => none
  | v => s.typeMetatable v.kind

/-- The handler in a value's metatable. -/
def metamethod (s : State ν) (v : Value) (name : String) : Option Value :=
  match s.metatable v with
  | some t =>
    let handler := (s.heap.table t).getString name
    if handler.isNil then none else some handler
  | none => none

/-- The handler in the metatable, or a host object's own. -/
def unaryMetamethod (s : State ν) (v : Value) (name : String) : Option Value :=
  s.metamethod v name <|> s.heap.intrinsic v name

/-- Both metatables come before what host objects bring themselves, the left operand first. -/
def binaryMetamethod (s : State ν) (left right : Value) (name : String) : Option Value :=
  s.metamethod left name <|> s.metamethod right name <|> s.heap.intrinsic left name <|>
  s.heap.intrinsic right name

/-! ## Following `__index` -/

/-- A chain of handlers has at most this many objects. -/
def maxChain : Nat := 100

/-- What one object knows of a key. -/
inductive Lookup
  | found (value : Value)
  | handler (handler : Value)

/-- Looks a key up in one object. -/
def lookup (s : State ν) (object key : Value) : Except Fault Lookup :=
  match object with
  | .table t =>
    let v := (s.heap.table t).get key
    if !v.isNil then .ok (.found v)
    else
      match s.metamethod object "__index" with
      | some handler => .ok (.handler handler)
      | none => .ok (.found .nil)
  | .userdata u => do
    match ← s.heap.member u key with
    | some v => return .found v
    | none =>
      match s.unaryMetamethod object "__index" with
      | some handler => return .handler handler
      | none =>
        throw (.raise (.unreadableField (s.heap.display key) (s.heap.object u).descriptor.name))
  | other =>
    match s.metamethod other "__index" with
    | some handler => .ok (.handler handler)
    | none => .error (.raise (.indexOf other.typeName))

/-- The end of a chain of handlers. -/
inductive Resolved
  | value (v : Value)
  /-- A function, and the object whose handler it is. -/
  | call (handler receiver : Value)

/-- Follows `__index` through at most so many objects. -/
def resolveIndex (s : State ν) (key : Value) : Nat → Value → Except Fault Resolved
  | 0, _ => .error (.raise (.chainTooLong "__index"))
  | budget + 1, object => do
    match ← s.lookup object key with
    | .found v => return .value v
    | .handler handler =>
      if handler.isFunction then return .call handler object
      else s.resolveIndex key budget handler

end State

namespace Exec

variable {ν : Type}

/-- What one object does with a store. -/
inductive Stored
  | done
  | handler (handler : Value)

/-- Stores into one object, or finds the handler that has to. -/
def storeInto (object key value : Value) : Exec ν Stored := do
  let s ← get
  match object with
  | .table t =>
    let handler :=
      if ((s.heap.table t).get key).isNil then s.metamethod object "__newindex" else none
    match handler with
    | some handler => return .handler handler
    | none =>
      let heap ← ofCause (s.heap.set t key value)
      modify fun s => s.setHeap heap
      return .done
  | .userdata u =>
    let (written, heap) ← ofExcept (s.heap.setMember u key value)
    if written then
      modify fun s => s.setHeap heap
      return .done
    else
      match s.unaryMetamethod object "__newindex" with
      | some handler => return .handler handler
      | none => raise (.unwritableField (s.heap.display key) (s.heap.object u).descriptor.name)
  | other =>
    match s.metamethod other "__newindex" with
    | some handler => return .handler handler
    | none => raise (.indexOf other.typeName)

/-- Follows `__newindex` through at most so many objects. Answers the function that has to be
called, and its receiver, if the store is not done. -/
def resolveStore (key value : Value) : Nat → Value → Exec ν (Option (Value × Value))
  | 0, _ => raise (.chainTooLong "__newindex")
  | budget + 1, object => do
    match ← storeInto object key value with
    | .done => return none
    | .handler handler =>
      if handler.isFunction then return some (handler, object)
      else resolveStore key value budget handler

end Exec

end ScriptMachine
