import ScriptMachine.Machine.Metatable

/-!
# Operators

Arithmetic, concatenation, length and comparison, with metamethods for what they do not know.
-/

namespace ScriptMachine

/-- A call that an instruction asks for: the function sits `argc` slots below the top. -/
structure CallSpec where
  argc : Nat
  returnAddress : Nat
  flags : FrameFlags := {}
  handlers : Handlers := {}
  name : Option String := none
deriving Inhabited

/-- What an instruction does with the result of a call that runs to its end first. -/
inductive After
  /-- Pushes its truth, or the opposite. -/
  | pushTruth (negated : Bool)
  /-- Pushes it as a method, with the receiver. -/
  | pushMethod (receiver : Value)
  /-- Pushes the three values of an iteration. -/
  | pushIteration
deriving Inhabited

/-- What an instruction asks of the loop that executes it. -/
inductive Effect
  | next
  | jump (target : Nat)
  | call (spec : CallSpec)
  /-- The popped frame returns a result. -/
  | leave (frame : Frame) (result : Value)
  /-- A call that runs to its end before the instruction goes on. -/
  | nested (function : Value) (arguments : List Value) (after : After)
deriving Inhabited

/-- The metamethod of an arithmetic instruction, and what it does with numbers. -/
def arithmetic? : Opcode → Option (String × (Number → Number → Number))
  | .add => some ("__add", Number.add)
  | .sub => some ("__sub", Number.sub)
  | .mul => some ("__mul", Number.mul)
  | .div => some ("__div", Number.div)
  | .mod => some ("__mod", Number.mod)
  | .power => some ("__pow", Number.pow)
  | _ => none

namespace Exec

variable {ν : Type}

/-- Pushes a handler and its operands, and asks for the call. -/
def callMetamethod (handler : Value) (operands : List Value) (returnAddress : Nat)
    (flags : FrameFlags) (name : String) : Exec ν Effect := do
  push handler
  pushAll operands
  return .call { argc := operands.length, returnAddress, flags, name := some name }

/-- A metamethod whose result is one value. -/
def callScalar (handler : Value) (operands : List Value) (returnAddress : Nat) (name : String) :
    Exec ν Effect :=
  callMetamethod handler operands returnAddress { scalarResult := true } name

/-- Pushes a result and goes on. -/
def result (v : Value) : Exec ν Effect := do
  push v
  return .next

def arithmetic (name : String) (apply : Number → Number → Number) (returnAddress : Nat) :
    Exec ν Effect := do
  let b ← popScalar
  let a ← popScalar
  match a.toNumber?, b.toNumber? with
  | some x, some y => result (.number (apply x y))
  | x, _ =>
    match (← get).binaryMetamethod a b name with
    | some handler => callScalar handler [a, b] returnAddress name
    | none => raise (.arithmeticOn (if x.isNone then a.typeName else b.typeName))

def negate (returnAddress : Nat) : Exec ν Effect := do
  let a ← popScalar
  match a.toNumber? with
  | some n => result (.number n.neg)
  | none =>
    match (← get).unaryMetamethod a "__unm" with
    | some handler => callScalar handler [a, a] returnAddress "__unm"
    | none => raise (.arithmeticOn a.typeName)

def concat (returnAddress : Nat) : Exec ν Effect := do
  let b ← popScalar
  let a ← popScalar
  match a.toString?, b.toString? with
  | some x, some y => result (.string (x ++ y))
  | x, _ =>
    match (← get).binaryMetamethod a b "__concat" with
    | some handler => callScalar handler [a, b] returnAddress "__concat"
    | none => raise (.concatenationOf (if x.isNone then a.typeName else b.typeName))

/-- The length of a string counts its bytes. A table's own length comes after its metamethod. -/
def length (returnAddress : Nat) : Exec ν Effect := do
  let a ← popScalar
  match a with
  | .string s => result (.number (.ofNat s.utf8ByteSize))
  | _ =>
    match (← get).unaryMetamethod a "__len" with
    | some handler => callScalar handler [a, a] returnAddress "__len"
    | none =>
      match a with
      | .table t => do
        let n := ((← get).heap.table t).length
        modify fun s => s.modifyHeap fun h => h.modifyTable t Table.withKnownLength
        result (.number (.ofNat n))
      | other => raise (.lengthOf other.typeName)

/-- Two tables, or two host objects, may bring their own equality. -/
def equal : Exec ν Effect := do
  let b ← popScalar
  let a ← popScalar
  let s ← get
  if s.heap.rawEquals a b then result (.boolean true)
  else
    let handler := match a, b with
      | .table _, .table _ | .userdata _, .userdata _ => s.binaryMetamethod a b "__eq"
      | _, _ => none
    match handler with
    | some handler => return .nested handler [a, b] (.pushTruth false)
    | none => result (.boolean false)

/-- Strings compare by their bytes, which is the order of their characters. -/
def less : Exec ν Effect := do
  let b ← popScalar
  let a ← popScalar
  match a, b with
  | .number x, .number y => result (.boolean (x.lt y))
  | .string x, .string y => result (.boolean (x < y))
  | _, _ =>
    match (← get).binaryMetamethod a b "__lt" with
    | some handler => return .nested handler [a, b] (.pushTruth false)
    | none => raise (.comparisonOf a.typeName b.typeName)

/-- Without `__le`, the opposite of `__lt` with the operands exchanged. -/
def lessEqual : Exec ν Effect := do
  let b ← popScalar
  let a ← popScalar
  match a, b with
  | .number x, .number y => result (.boolean (x.le y))
  | .string x, .string y => result (.boolean (x ≤ y))
  | _, _ =>
    let s ← get
    match s.binaryMetamethod a b "__le" with
    | some handler => return .nested handler [a, b] (.pushTruth false)
    | none =>
      match s.binaryMetamethod b a "__lt" with
      | some handler => return .nested handler [b, a] (.pushTruth true)
      | none => raise (.comparisonOf a.typeName b.typeName)

end Exec

end ScriptMachine
