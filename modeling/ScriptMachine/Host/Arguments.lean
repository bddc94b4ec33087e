import ScriptMachine.Fault.Basic
import ScriptMachine.Value.Basic

/-!
# Arguments of host routines

A routine gets scalars only. A tuple in the last place stands for all its values, any other for its
first one.
-/

namespace ScriptMachine

/-- What is accepted besides the expected type. -/
structure Acceptance where
  /-- Nil, or a missing argument. -/
  allowNil : Bool := false
  /-- Numbers for strings and back, and anything for a boolean. -/
  convert : Bool := false
deriving DecidableEq, Inhabited, Repr

/-- What a message calls the argument that was found. -/
def Value.foundName (v : Value) : String := if v.isVoid then "no value" else v.typeName

/-- A value as one of an expected kind, or the error of a bad argument. -/
def Value.check (v : Value) (function : String) (expected : Kind) (position : Nat)
    (accept : Acceptance) : Except Fault Value :=
  let v := v.scalar
  let fits := v.kind == expected || (expected == .function && v.kind == .native) ||
    (expected == .nil && v.kind == .void)
  if fits then .ok v
  else if accept.allowNil && v.isNil then .ok .nil
  else
    let converted := match expected with
      | .number => v.toNumber?.map Value.number
      | .string => v.toString?.map Value.string
      | .boolean => some (.boolean v.truthy)
      | _ => none
    match if accept.convert then converted else none with
    | some v => .ok v
    | none => .error (.raise (.badArgument position function expected.name v.foundName))

structure Arguments where
  values : List Value
  /-- The call was in method syntax; messages then do not count the receiver. -/
  isMethod : Bool := false
deriving Inhabited

namespace Arguments

/-- The arguments that the operands of a call stand for. -/
def ofOperands (operands : List Value) (isMethod : Bool) : Arguments :=
  ⟨(Value.spliceLast operands).map Value.scalar, isMethod⟩

def size (a : Arguments) : Nat := a.values.length

/-- An argument by its index; nothing when it is missing. -/
def get (a : Arguments) (i : Nat) : Value := a.values.getD i .void

/-- The arguments from an index on. -/
def after (a : Arguments) (start : Nat) : List Value := a.values.drop start

/-- An argument as one of an expected kind. -/
def check (a : Arguments) (i : Nat) (function : String) (expected : Kind) (accept : Acceptance) :
    Except Fault Value :=
  (a.get i).check function expected (if a.isMethod then i else i + 1) accept

end Arguments

end ScriptMachine
