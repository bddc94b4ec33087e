import ScriptMachine.Heap.Basic
import ScriptMachine.Text.Quoted

/-!
# The text of values

* `display` is what scripts see of a value.
* `describe` tells values of different kinds apart, as listings of constants need.

Objects without a text of their own are shown by kind and number.
-/

namespace ScriptMachine

/-- The names of functions. -/
structure FunctionNames where
  closure : ClosureId → String
  native : NativeId → String

namespace Heap

mutual

/-- The text of a value as scripts see it; the values of a tuple are separated by tabs. -/
def display (h : Heap) : Value → String
  | .void | .nil => "nil"
  | .boolean b => toString b
  | .number n => n.format
  | .string s => s
  | .table t => "table: " ++ Text.address t.index
  | .function f => "function: " ++ Text.address f.index
  | .native f => "function: " ++ Text.address f.index
  | .userdata u => (h.object u).descriptor.text.getD ("userdata: " ++ Text.address u.index)
  | .thread c => "thread: " ++ Text.address c.index
  | .tuple vs => String.intercalate "\t" (h.displayAll vs)
  | .tailCall _ => "(tail call request)"
  | .yield _ => "(yield request)"
  | .await _ => "(await request)"
  | .range r => r.first.format ++ ".." ++ r.last.format ++ ".." ++ r.step.format

def displayAll (h : Heap) : List Value → List String
  | [] => []
  | v :: rest => h.display v :: h.displayAll rest

end

mutual

/-- The text of a value shows the number of an object. -/
def showsAddress (h : Heap) : Value → Bool
  | .table _ | .function _ | .native _ | .thread _ => true
  | .userdata u => (h.object u).descriptor.text.isNone
  | .tuple vs => h.anyShowsAddress vs
  | _ => false

def anyShowsAddress (h : Heap) : List Value → Bool
  | [] => false
  | v :: rest => h.showsAddress v || h.anyShowsAddress rest

end

/-- The text of a value, or its type where the text would show the number of an object. -/
def caption (h : Heap) (v : Value) : String :=
  if h.showsAddress v then "<" ++ v.typeName ++ ">" else h.display v

mutual

/-- A text that names the kind of a value. Tables are not opened, since they may be cyclic. -/
def describe (h : Heap) (names : FunctionNames) : Value → String
  | .void => "Void"
  | .nil => "Nil"
  | .boolean b => "Boolean(" ++ toString b ++ ")"
  | .number n => "Number(" ++ n.plain ++ ")"
  | .string s => "String(" ++ Text.quote s ++ ")"
  | .table t => "Table(" ++ Text.address t.index ++ ")"
  | .function f => "Function(" ++ names.closure f ++ ")"
  | .native f => "NativeFunction(" ++ names.native f ++ ")"
  | .tuple vs => "Tuple(" ++ Text.bracketed (h.describeAll names vs) ++ ")"
  | v => h.display v

def describeAll (h : Heap) (names : FunctionNames) : List Value → List String
  | [] => []
  | v :: rest => h.describe names v :: h.describeAll names rest

end

end Heap

end ScriptMachine
