import ScriptMachine.Heap.Text

/-!
# Snapshots

A picture of a value at one moment, with the contents of the tables it leads to. Each table is
opened where it is first met, and not beyond a depth, so the picture is finite also where tables
are cyclic.
-/

namespace ScriptMachine

/-- The life of a coroutine. -/
inductive CoroutineState
  | notStarted
  | suspended
  /-- Stopped because its share of instructions was used up. -/
  | forceSuspended
  | running
  | dead
deriving DecidableEq, Inhabited, Repr

namespace CoroutineState

def label : CoroutineState → String
  | notStarted => "NotStarted"
  | suspended => "Suspended"
  | forceSuspended => "ForceSuspended"
  | running => "Running"
  | dead => "Dead"

/-- The state as scripts see it. -/
def text : CoroutineState → String
  | notStarted | suspended | forceSuspended => "suspended"
  | running => "running"
  | dead => "dead"

end CoroutineState

inductive Snapshot
  /-- A value that refers to nothing. -/
  | void
  | nil
  | boolean (b : Bool)
  | number (n : Number)
  | string (s : String)
  | range (r : Range)
  | tuple (items : List Snapshot)
  /-- The table of globals, which is never opened. -/
  | globals
  /-- A table met before, or too deep. -/
  | table (t : TableId)
  | openTable (t : TableId) (pairs : List (Snapshot × Snapshot)) (origin : Nat)
      (metatable : Option Snapshot)
  | function (f : ClosureId) (name : String)
  | native (f : NativeId) (name : String)
  | userdata (u : UserdataId) (name : String)
  | thread (c : ThreadId) (state : CoroutineState)
  | request (typeName : String)
deriving Inhabited

namespace Snapshot

/-- What a snapshot is taken of. -/
structure Scene where
  heap : Heap
  globals : Option TableId := none
  names : FunctionNames
  coroutineState : ThreadId → CoroutineState

/-- The tables met so far. -/
abbrev Taking := StateM (List TableId)

mutual

/-- The snapshot of a value, given the one of tables. -/
def ofValueWith (scene : Scene) (ofTable : TableId → Taking Snapshot) : Value → Taking Snapshot
  | .void => return .void
  | .nil => return .nil
  | .boolean b => return .boolean b
  | .number n => return .number n
  | .string s => return .string s
  | .range r => return .range r
  | .table t => ofTable t
  | .function f => return .function f (scene.names.closure f)
  | .native f => return .native f (scene.names.native f)
  | .userdata u => return .userdata u (scene.heap.object u).descriptor.name
  | .thread c => return .thread c (scene.coroutineState c)
  | .tuple vs => do return .tuple (← ofValuesWith scene ofTable vs)
  | v => return .request v.typeName

def ofValuesWith (scene : Scene) (ofTable : TableId → Taking Snapshot) :
    List Value → Taking (List Snapshot)
  | [] => return []
  | v :: rest => do
    let first ← ofValueWith scene ofTable v
    return first :: (← ofValuesWith scene ofTable rest)

end

def ofPairsWith (take : Value → Taking Snapshot) :
    List (Value × Value) → Taking (List (Snapshot × Snapshot))
  | [] => return []
  | (k, v) :: rest => do
    let key ← take k
    let value ← take v
    return (key, value) :: (← ofPairsWith take rest)

/-- Opens a table that was not met before, with at most so many tables nested in it. -/
def ofTable (scene : Scene) : Nat → TableId → Taking Snapshot
  | depth, t => do
    if scene.globals = some t then return .globals
    match depth with
    | 0 => return .table t
    | depth + 1 =>
      if t ∈ (← get) then return .table t
      else
        modify fun met => t :: met
        let table := scene.heap.table t
        let take := ofValueWith scene (ofTable scene depth)
        let pairs ← ofPairsWith take table.pairs
        let metatable ← match table.metatable with
          | some m => do pure (some (← ofTable scene depth m))
          | none => pure none
        return .openTable t pairs table.origin metatable

/-- Tables are nested at most this deep in a snapshot. -/
def maxDepth : Nat := 20

/-- The snapshot of a list of values; a table that occurs twice is opened once. -/
def ofValues (scene : Scene) (vs : List Value) : List Snapshot :=
  ((ofValuesWith scene (ofTable scene maxDepth) vs).run []).1

def ofValue (scene : Scene) (v : Value) : Snapshot :=
  ((ofValueWith scene (ofTable scene maxDepth) v).run []).1

end Snapshot

end ScriptMachine
