/-!
# Instructions

The instruction set of the stack machine. Stack effects are written `[inputs] -> [outputs]`, the
top of the stack last; `a` and `b` are the operands.
-/

namespace ScriptMachine

inductive Opcode
  /-- Does nothing. -/
  | nop
  /-- Marks a place for debuggers and does nothing. -/
  | debug
  /-- Pops `a` values. -/
  | pop
  /-- Pushes the value `a` slots below the top. -/
  | copy
  /-- Swaps the values `a` and `b` slots below the top. -/
  | swap
  | pushNil
  /-- Pushes whether `a` is not zero. -/
  | pushBool
  | pushNumber
  | pushString
  /-- Pushes a closure over the nested function `a`. -/
  | closure
  /-- Pushes an empty table with origin `a`. -/
  | newTable
  /-- `[t, k, v] -> [t]`: stores `v` under `k` without metamethods. -/
  | tableField
  /-- `[t, v] -> [t]`: appends `v`, or all its values when `a` is not zero. -/
  | tableItem
  /-- Pushes the value of symbol `a`. -/
  | load
  /-- Pops into symbol `a`, or stores value `b - 1` of the tuple on top and leaves it there. -/
  | store
  /-- `[o] -> [o[s]]` for string `a`, or `[o, k] -> [o[k]]` when `a` is negative. -/
  | index
  /-- `[v, o] -> []` for string `a`, or `[v, o, k] -> []` when `a` is negative. -/
  | indexSet
  /-- `[o, k1 .. ka] -> [o[k1] .. [ka]]` through nested tables. -/
  | indexMulti
  /-- `[o] -> [o[s], o]` for string `a`. -/
  | selfIndex
  /-- Turns the arguments into `a` parameters and, if `b` is not zero, the rest into a tuple. -/
  | beginFn
  /-- `[f, args(a)] -> [result]`; a positive `b` names the callee. -/
  | call
  /-- A call in method syntax. -/
  | thisCall
  /-- A call whose result the function returns. -/
  | tailCall
  /-- Returns nothing, or the popped value when `a` is not zero. -/
  | ret
  | jump
  /-- Pops, and jumps on a false value. -/
  | jumpIfFalse
  /-- Pops and jumps on nil. -/
  | jumpIfNil
  /-- Jumps on a true value and keeps it, or pops it. -/
  | jumpIfTrueOrPop
  /-- Jumps on a false value and keeps it, or pops it. -/
  | jumpIfFalseOrPop
  /-- Makes the value `a` slots below the top a number. -/
  | toNumber
  /-- `[limit, step, var]`: jumps when `var` is past `limit`. -/
  | jumpFor
  /-- `[step, var] -> [step, var + step]`. -/
  | increment
  /-- `[iterable] -> [f, s, var]`. -/
  | iterPrepare
  /-- `[f, s, var, r] -> [f, s, r[0], r]`. -/
  | iterUpdate
  | add
  | sub
  | mul
  | div
  | mod
  | power
  | negate
  | concat
  | length
  | not
  | equal
  | less
  | lessEqual
  /-- Truth of the top, turned around when `a` is not zero. -/
  | conditionalNot
  | toBool
  /-- Pops `a` values and pushes their tuple. -/
  | makeTuple
  | scalar
  /-- Pushes the values of the tuple on top, exactly `a` of them when `a` is positive. -/
  | expandTuple
  /-- Closes the cells of local slots `a` to `b` and resets the slots. -/
  | closeUpvalues
  /-- `[first, last] -> [range]`, or `[first, last, step]` when `a` is three. -/
  | makeRange
  /-- Fails. -/
  | invalid
deriving DecidableEq, Inhabited, Repr

namespace Opcode

/-- The opcodes in the order of their codes. -/
def all : List Opcode :=
  [nop, debug, pop, copy, swap, pushNil, pushBool, pushNumber, pushString, closure, newTable,
   tableField, tableItem, load, store, index, indexSet, indexMulti, selfIndex, beginFn, call,
   thisCall, tailCall, ret, jump, jumpIfFalse, jumpIfNil, jumpIfTrueOrPop, jumpIfFalseOrPop,
   toNumber, jumpFor, increment, iterPrepare, iterUpdate, add, sub, mul, div, mod, power, negate,
   concat, length, not, equal, less, lessEqual, conditionalNot, toBool, makeTuple, scalar,
   expandTuple, closeUpvalues, makeRange, invalid]

/-- The name of an opcode in assembly. -/
def name : Opcode → String
  | nop => "Nop"
  | debug => "Debug"
  | pop => "Pop"
  | copy => "Copy"
  | swap => "Swap"
  | pushNil => "PushNil"
  | pushBool => "PushBool"
  | pushNumber => "PushNumber"
  | pushString => "PushString"
  | closure => "Closure"
  | newTable => "NewTable"
  | tableField => "TblInitN"
  | tableItem => "TblInitI"
  | load => "Load"
  | store => "Store"
  | index => "Index"
  | indexSet => "IndexSet"
  | indexMulti => "IndexMulti"
  | selfIndex => "SelfIndex"
  | beginFn => "BeginFn"
  | call => "Call"
  | thisCall => "ThisCall"
  | tailCall => "TailCall"
  | ret => "Ret"
  | jump => "Jump"
  | jumpIfFalse => "Jf"
  | jumpIfNil => "JNil"
  | jumpIfTrueOrPop => "JtOrPop"
  | jumpIfFalseOrPop => "JfOrPop"
  | toNumber => "ToNum"
  | jumpFor => "Jfor"
  | increment => "Incr"
  | iterPrepare => "IterPrep"
  | iterUpdate => "IterUpd"
  | add => "Add"
  | sub => "Sub"
  | mul => "Mul"
  | div => "Div"
  | mod => "Mod"
  | power => "Power"
  | negate => "Neg"
  | concat => "Concat"
  | length => "Len"
  | not => "Not"
  | equal => "Eq"
  | less => "Less"
  | lessEqual => "LessEq"
  | conditionalNot => "CNot"
  | toBool => "ToBool"
  | makeTuple => "MkTuple"
  | scalar => "Scalar"
  | expandTuple => "ExpTuple"
  | closeUpvalues => "CloseUp"
  | makeRange => "MkRange"
  | invalid => "Invalid"

def ofName? (s : String) : Option Opcode := all.find? fun op => op.name == s

/-- The name in a listing. -/
def mnemonic (op : Opcode) : String := op.name.toUpper

/-- The code of an opcode: its place in `all`. -/
def code (op : Opcode) : UInt8 := (all.idxOf op).toUInt8

def ofCode? (code : UInt8) : Option Opcode := all[code.toNat]?

theorem ofCode?_code (op : Opcode) : ofCode? op.code = some op := by cases op <;> rfl

end Opcode

/-- One instruction. -/
structure Instruction where
  op : Opcode
  a : Int32 := 0
  b : Int32 := 0
deriving DecidableEq, Inhabited, Repr

end ScriptMachine
