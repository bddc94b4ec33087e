/-!
# Kinds of values

The tag of a value, its name in messages and its label in descriptions.
-/

namespace ScriptMachine

/-- What a value is. -/
inductive Kind
  | void
  | nil
  | boolean
  | number
  | string
  | table
  | function
  | native
  | userdata
  | thread
  | tuple
  | tailCallRequest
  | yieldRequest
  | awaitRequest
  | range
deriving DecidableEq, Inhabited, Repr

namespace Kind

/-- The kinds in the order of their tags. -/
def all : List Kind :=
  [void, nil, boolean, number, string, table, function, native, userdata, thread, tuple,
   tailCallRequest, yieldRequest, awaitRequest, range]

/-- The name scripts and messages use; both sorts of function share theirs. -/
def name : Kind → String
  | void => "no value"
  | nil => "nil"
  | boolean => "boolean"
  | number => "number"
  | string => "string"
  | table => "table"
  | function | native => "function"
  | userdata => "userdata"
  | thread => "thread"
  | tuple => "tuple"
  | tailCallRequest => "tailcallrequest"
  | yieldRequest => "yieldrequest"
  | awaitRequest => "awaitrequest"
  | range => "range"

/-- The label of a kind, different for different kinds. -/
def label : Kind → String
  | void => "Void"
  | nil => "Nil"
  | boolean => "Boolean"
  | number => "Number"
  | string => "String"
  | table => "Table"
  | function => "Function"
  | native => "NativeFunction"
  | userdata => "UserData"
  | thread => "Thread"
  | tuple => "Tuple"
  | tailCallRequest => "TailCallRequest"
  | yieldRequest => "YieldRequest"
  | awaitRequest => "AwaitRequest"
  | range => "Range"

def ofLabel? (s : String) : Option Kind := all.find? fun k => k.label == s

/-- The tag of a kind in serialized values. -/
def tag : Kind → UInt8
  | void => 0
  | nil => 1
  | boolean => 2
  | number => 3
  | string => 4
  | table => 5
  | function => 6
  | native => 7
  | userdata => 8
  | thread => 9
  | tuple => 10
  | tailCallRequest => 11
  | yieldRequest => 12
  | awaitRequest => 13
  | range => 14

def ofTag? (tag : UInt8) : Option Kind := all[tag.toNat]?

theorem ofTag?_tag (k : Kind) : ofTag? k.tag = some k := by cases k <;> rfl

end Kind

end ScriptMachine
