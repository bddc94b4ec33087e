import ScriptMachine.Table.Basic
import ScriptMachine.Value.Basic

/-!
# The heap

The objects that values name: tables, host objects and the requests that host routines return.

* A host object keeps its members and its intrinsic metamethods in two tables of its own.
* A request asks the machine for a call, a yield or an await in place of the routine that returned
  it. An await request gives its task away once.
-/

namespace ScriptMachine

/-- A host operation that scripts can wait for. -/
inductive Task
  | settles (outcome : Except Fault Value)
  | never
deriving Inhabited

/-- A call to make in place of the routine that asked for it. -/
structure TailCall where
  function : Value
  arguments : List Value
  /-- Receives the result; what it returns becomes the result. -/
  continuation : Option NativeId := none
  /-- Receives the message of an error; what it returns becomes the result. -/
  errorHandler : Option NativeId := none
  /-- Receives the message before any frame is unwound; what it returns replaces the message. -/
  decorator : Option Value := none
deriving Inhabited

/-- What the host knows of a sort of objects. -/
structure Descriptor where
  name : String
  /-- Objects are equal when their members `id` are. -/
  comparesById : Bool := false
  /-- The text of an object. -/
  text : Option String := none
deriving DecidableEq, Inhabited, Repr

/-- A host object that scripts can reach. -/
structure Userdata where
  descriptor : Descriptor
  members : TableId
  metamethods : TableId
  metatable : Option TableId := none
deriving Inhabited

structure Heap where
  tables : Array Table := #[]
  userdata : Array Userdata := #[]
  tailCalls : Array TailCall := #[]
  yields : Array (List Value) := #[]
  awaits : Array (Option Task) := #[]
deriving Inhabited

namespace Heap

/-! ## Tables -/

/-- The table of an identifier; one that was never made is empty. -/
def table (h : Heap) (t : TableId) : Table := h.tables[t.index]?.getD .empty

def newTable (h : Heap) (t : Table) : TableId × Heap :=
  (⟨h.tables.size⟩, { h with tables := h.tables.push t })

def modifyTable (h : Heap) (t : TableId) (f : Table → Table) : Heap :=
  { h with tables := h.tables.modify t.index f }

/-- Stores into a table. -/
def set (h : Heap) (t : TableId) (key value : Value) : Except Cause Heap := do
  let k ← Key.ofValue key
  return h.modifyTable t fun table => table.store k key.scalar value.scalar

/-- The value that a list of keys leads to through nested tables. -/
def path (h : Heap) (t : TableId) (keys : List Value) : Except Cause Value :=
  go (.table t) 0 keys
where
  go (current : Value) (position : Nat) : List Value → Except Cause Value
    | [] => .ok current
    | key :: rest =>
      match current with
      | .table t => go ((h.table t).get key) (position + 1) rest
      | other => .error (.pathThrough other.typeName position)

/-- Stores under the last of a list of keys, in the table that the others lead to. -/
def setPath (h : Heap) (t : TableId) (keys : List Value) (value : Value) : Except Cause Heap :=
  go t 1 keys
where
  go (t : TableId) (position : Nat) : List Value → Except Cause Heap
    | [] => .error .emptyPath
    | [key] => h.set t key value
    | key :: rest =>
      match (h.table t).get key with
      | .table inner => go inner (position + 1) rest
      | other => .error (.pathThrough other.typeName position)

/-! ## Host objects -/

def object (h : Heap) (u : UserdataId) : Userdata := h.userdata[u.index]?.getD default

def newUserdata (h : Heap) (u : Userdata) : UserdataId × Heap :=
  (⟨h.userdata.size⟩, { h with userdata := h.userdata.push u })

def setObjectMetatable (h : Heap) (u : UserdataId) (metatable : Option TableId) : Heap :=
  { h with userdata := h.userdata.modify u.index fun o => { o with metatable } }

/-- The member whose accessors fail. -/
def failingMember : String := "boom"

/-- A member of a host object. One name always fails. -/
def member (h : Heap) (u : UserdataId) (key : Value) : Except Fault (Option Value) :=
  if key.asString = some failingMember then .error (.raiseText "index boom")
  else
    let v := (h.table (h.object u).members).get key
    .ok (if v.isNil then none else some v)

/-- Writes a member of a host object, if it has it. -/
def setMember (h : Heap) (u : UserdataId) (key value : Value) : Except Fault (Bool × Heap) :=
  if key.asString = some failingMember then .error (.raiseText "set_index boom")
  else
    let t := (h.object u).members
    if ((h.table t).get key).isNil then .ok (false, h)
    else
      match h.set t key value with
      | .ok h => .ok (true, h)
      | .error cause => .error (.raise cause)

/-- A metamethod of a host object's own. -/
def intrinsic (h : Heap) (v : Value) (name : String) : Option Value :=
  match v with
  | .userdata u =>
    let handler := (h.table (h.object u).metamethods).getString name
    if handler.isNil then none else some handler
  | _ => none

/-- The member by which host objects are compared. -/
def identity (h : Heap) (u : UserdataId) : Value := (h.table (h.object u).members).getString "id"

/-- Two host objects are the same, or the left one compares by member and these are equal. A chain
of objects as members is followed `fuel` steps. -/
def sameObject (h : Heap) : Nat → UserdataId → UserdataId → Bool
  | 0, a, b => a == b
  | fuel + 1, a, b =>
    a == b || ((h.object a).descriptor.comparesById &&
      Value.equalsWith (h.sameObject fuel) (h.identity a) (h.identity b))

/-- Equality before metamethods. A chain of members that visits no pair of objects twice is
shorter than the number of pairs. -/
def rawEquals (h : Heap) (a b : Value) : Bool :=
  Value.equalsWith (h.sameObject (h.userdata.size * h.userdata.size + 1)) a b

/-! ## Requests -/

def newTailCall (h : Heap) (call : TailCall) : Value × Heap :=
  (.tailCall ⟨h.tailCalls.size⟩, { h with tailCalls := h.tailCalls.push call })

def newYield (h : Heap) (values : List Value) : Value × Heap :=
  (.yield ⟨h.yields.size⟩, { h with yields := h.yields.push values })

def newAwait (h : Heap) (task : Task) : Value × Heap :=
  (.await ⟨h.awaits.size⟩, { h with awaits := h.awaits.push (some task) })

def tailCall (h : Heap) (r : RequestId) : TailCall := h.tailCalls[r.index]?.getD default

def yielded (h : Heap) (r : RequestId) : List Value := h.yields[r.index]?.getD []

/-- The task of an await request has not been taken. -/
def isPending (h : Heap) (r : RequestId) : Bool := (h.awaits[r.index]?.getD none).isSome

/-- Takes the task of an await request, which can be done once. -/
def takeTask (h : Heap) (r : RequestId) : Except Fault (Task × Heap) :=
  match h.awaits[r.index]?.getD none with
  | some task => .ok (task, { h with awaits := h.awaits.setIfInBounds r.index none })
  | none => .error (.defect .awaitConsumed)

end Heap

end ScriptMachine
