import ScriptMachine.Number.Numeral
import ScriptMachine.Number.Text
import ScriptMachine.Value.Kind

/-!
# Values

What instructions work on. Objects that scripts share are named by identifiers; a value itself is
never changed.

* A tuple carries several values through a call. `tuple` and `spliced` build one, `items` takes
  one apart, and `scalar` is its first value that is no tuple.
* `equalsWith` is equality before metamethods: identity for objects, unless the host compares its
  own.
* `truthy`, `toNumber?` and `toString?` read a value as something else. Strings and numbers stand in
  for each other; a tuple acts as its scalar.
-/

namespace ScriptMachine

structure TableId where
  index : Nat
deriving DecidableEq, Inhabited, Repr

structure ClosureId where
  index : Nat
deriving DecidableEq, Inhabited, Repr

structure NativeId where
  index : Nat
deriving DecidableEq, Inhabited, Repr

structure UserdataId where
  index : Nat
deriving DecidableEq, Inhabited, Repr

/-- A processor of the tree: zero is the root, any other belongs to the coroutine of that number. -/
structure ThreadId where
  index : Nat
deriving DecidableEq, Inhabited, Repr

structure RequestId where
  index : Nat
deriving DecidableEq, Inhabited, Repr

/-- A value of the machine. `void` is the absence of one. -/
inductive Value
  | void
  | nil
  | boolean (b : Bool)
  | number (n : Number)
  | string (s : String)
  | table (t : TableId)
  | function (f : ClosureId)
  | native (f : NativeId)
  | userdata (u : UserdataId)
  | thread (c : ThreadId)
  | tuple (items : List Value)
  | tailCall (r : RequestId)
  | yield (r : RequestId)
  | await (r : RequestId)
  | range (r : Range)
deriving Inhabited

namespace Value

def kind : Value → Kind
  | void => .void
  | nil => .nil
  | boolean _ => .boolean
  | number _ => .number
  | string _ => .string
  | table _ => .table
  | function _ => .function
  | native _ => .native
  | userdata _ => .userdata
  | thread _ => .thread
  | tuple _ => .tuple
  | tailCall _ => .tailCallRequest
  | yield _ => .yieldRequest
  | await _ => .awaitRequest
  | range _ => .range

/-- The type name of a value in messages; an absent value counts as nil. -/
def typeName : Value → String
  | void => "nil"
  | v => v.kind.name

def isNil : Value → Bool
  | void | nil => true
  | _ => false

def isVoid : Value → Bool
  | void => true
  | _ => false

/-- Functions of either sort, which can be called as they are. -/
def isFunction : Value → Bool
  | function _ | native _ => true
  | _ => false

def asNumber : Value → Option Number
  | number n => some n
  | _ => none

def asString : Value → Option String
  | string s => some s
  | _ => none

def asTable : Value → Option TableId
  | table t => some t
  | _ => none

/-! ## Tuples -/

/-- The tuple of several values, the one value, or nothing. -/
def ofList : List Value → Value
  | [] => void
  | [v] => v
  | vs => tuple vs

/-- A list whose last element gives way to its items if it is a tuple. -/
def spliceLast : List Value → List Value
  | [] => []
  | [tuple items] => items
  | v :: rest => v :: spliceLast rest

/-- The tuple of a list whose last element is spliced. -/
def spliced (vs : List Value) : Value := ofList (spliceLast vs)

/-- The values a result stands for. -/
def items : Value → List Value
  | tuple vs => vs
  | void => []
  | v => [v]

/-- The first value of nested tuples that is no tuple; nothing for an empty one. -/
def scalar : Value → Value
  | tuple [] => void
  | tuple (v :: _) => v.scalar
  | v => v

/-! ## Equality -/

mutual

/-- Equality before metamethods, given the host's comparison of its own objects. -/
def equalsWith (same : UserdataId → UserdataId → Bool) : Value → Value → Bool
  | void, void | void, nil | nil, void | nil, nil => true
  | boolean a, boolean b => a == b
  | number a, number b => a.equals b
  | string a, string b => a == b
  | table a, table b => a == b
  | function a, function b => a == b
  | native a, native b => a == b
  | userdata a, userdata b => same a b
  | thread a, thread b => a == b
  | tuple as, tuple bs => listEqualsWith same as bs
  | tailCall a, tailCall b => a == b
  | yield a, yield b => a == b
  | await a, await b => a == b
  | range a, range b => a.equals b
  | _, _ => false

/-- Lists of one length with equal elements. -/
def listEqualsWith (same : UserdataId → UserdataId → Bool) : List Value → List Value → Bool
  | [], [] => true
  | a :: as, b :: bs => equalsWith same a b && listEqualsWith same as bs
  | _, _ => false

end

/-- Everything is true but nil, an absent value and `false`. -/
def truthy (v : Value) : Bool :=
  match v.scalar with
  | nil | void | boolean false => false
  | _ => true

/-- The number of a value: numbers and numerals have one. -/
def toNumber? (v : Value) : Option Number :=
  match v.scalar with
  | number n => some n
  | string s => Numeral.read s
  | _ => none

/-- The string of a value: strings and numbers have one. -/
def toString? (v : Value) : Option String :=
  match v.scalar with
  | string s => some s
  | number n => some n.format
  | _ => none

end Value

end ScriptMachine
