import ScriptMachine.Fault.Basic
import ScriptMachine.Value.Basic

/-!
# Table keys

The form of a value under which a table files it. Values that are equal as keys have one form: both
zeros are one key, and a tuple files as its scalar.
-/

namespace ScriptMachine

/-- A value as a table files it. -/
inductive Key
  | boolean (b : Bool)
  | number (bits : UInt64)
  | string (s : String)
  | range (first last step : UInt64)
  | table (t : TableId)
  | function (f : ClosureId)
  | native (f : NativeId)
  | userdata (u : UserdataId)
  | thread (c : ThreadId)
deriving DecidableEq, Inhabited, Repr

namespace Key

/-- The bits of a number, with one form for both zeros. -/
def numberBits (n : Number) : UInt64 := if n.isZero then Number.zero.bits else n.bits

/-- The key of a value that is no tuple. -/
def ofScalar : Value → Except Cause Key
  | .boolean b => .ok (.boolean b)
  | .number n => if n.isNaN then .error .nanKey else .ok (.number (numberBits n))
  | .string s => .ok (.string s)
  | .range r => .ok (.range (numberBits r.first) (numberBits r.last) (numberBits r.step))
  | .table t => .ok (.table t)
  | .function f => .ok (.function f)
  | .native f => .ok (.native f)
  | .userdata u => .ok (.userdata u)
  | .thread c => .ok (.thread c)
  | .void | .nil => .error .nilKey
  | v => .error (.unusableKey v.typeName)

/-- The key of a value; nil, a not-a-number and requests have none. -/
def ofValue (v : Value) : Except Cause Key := ofScalar v.scalar

/-- The key of an integer. -/
def ofNat (n : Nat) : Key := .number (numberBits (.ofNat n))

end Key

end ScriptMachine
