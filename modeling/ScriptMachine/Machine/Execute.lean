import ScriptMachine.Machine.Operator
import ScriptMachine.Machine.Variable

/-!
# Executing instructions

The effect of each instruction on the state, and what it asks for next. Calls are not made here:
an instruction leaves the operands on the stack and names the call.
-/

namespace ScriptMachine.Exec

variable {ν : Type}

/-! ## Operands -/

/-- An operand as an index or a count; negative operands count as zero. -/
def operand (a : Int32) : Nat := a.toInt.toNat

def jumpTo (a : Int32) : Exec ν Effect :=
  if a < 0 then defect (.jumpTarget a.toInt) else return .jump a.toInt.toNat

def stringOperand (p : Proto) (a : Int32) : Exec ν String :=
  match p.strings[operand a]? with
  | some s => return s
  | none => defect (.stringOutOfRange a.toInt)

def numberOperand (p : Proto) (a : Int32) : Exec ν Number :=
  match p.numbers[operand a]? with
  | some n => return n
  | none => defect (.numberOutOfRange a.toInt)

def symbolOperand (p : Proto) (a : Int32) : Exec ν Symbol :=
  match p.symbols[operand a]? with
  | some sym => return sym
  | none => defect (.symbolOutOfRange a.toInt)

/-- The name that the caller uses for the callee. -/
def calleeName (p : Proto) (b : Int32) : Option String :=
  if 0 < b then p.strings[(b.toInt - 1).toNat]? else none

/-- The key of an indexing instruction: a string operand, or the top of the stack. -/
def keyOperand (p : Proto) (a : Int32) : Exec ν Value :=
  if a < 0 then popScalar else do return .string (← stringOperand p a)

/-! ## Indexing -/

/-- Pushes what an object holds under a key, or asks for the call of a handler. -/
def index (object key : Value) (returnAddress : Nat) : Exec ν Effect := do
  match ← ofExcept ((← get).resolveIndex key State.maxChain object) with
  | .value v => result v
  | .call handler receiver => callScalar handler [receiver, key] returnAddress "__index"

/-- Stores a value under a key, or asks for the call of a handler. -/
def storeIndex (object key value : Value) (returnAddress : Nat) : Exec ν Effect := do
  match ← resolveStore key value State.maxChain object with
  | none => return .next
  | some (handler, receiver) =>
    callMetamethod handler [receiver, key, value] returnAddress { discardResult := true }
      "__newindex"

/-- The table an initializer works on. -/
def initializerTarget : Exec ν TableId := do
  match ← peek 0 with
  | .table t => return t
  | _ => defect .initializerTarget

def loadSymbol (scope : Scope) (sym : Symbol) (returnAddress : Nat) : Exec ν Effect := do
  match sym with
  | .global name env => index (← readSymbol scope env) (.string name) returnAddress
  | other => result (← readSymbol scope other)

def storeSymbol (scope : Scope) (sym : Symbol) (v : Value) (returnAddress : Nat) :
    Exec ν Effect := do
  match sym with
  | .global name env => storeIndex (← readSymbol scope env) (.string name) v returnAddress
  | other =>
    writeSymbol scope other v
    return .next

/-! ## Functions -/

/-- The slots of a function: parameters, the tuple of further arguments, and other locals. -/
def bindArguments (p : Proto) (params : Nat) (varargs isMethod : Bool) (operands : List Value) :
    List Value :=
  let given := Value.spliceLast operands
  let given := if p.flags.implicitThis && !isMethod then .nil :: given else given
  let scalars := given.map Value.scalar
  let bound := (scalars.take params) ++ List.replicate (params - scalars.length) .nil
  let bound := if varargs then bound ++ [Value.ofList (scalars.drop params)] else bound
  bound ++ List.replicate (p.locals.length - bound.length) .nil

/-- Turns the arguments above the base into the slots of the function. -/
def beginFunction (p : Proto) (scope : Scope) (i : Instruction) : Exec ν Unit := do
  let isMethod := match ← topFrame? with
    | some frame => frame.flags.methodCall
    | none => false
  let operands ← splitOff scope.base
  pushAll (bindArguments p (operand i.a) (i.b != 0) isMethod operands)

/-- Both stacks are deeper than the threshold, the running frame has no handlers, and the callee is
a script function. -/
def mayReuseFrame (argc : Nat) : Exec ν Bool := do
  let s ← get
  let threshold := s.options.tailCallThreshold
  let p := s.processor
  match p.frames.back? with
  | none => return false
  | some frame =>
    if threshold < p.stack.size && threshold < p.frames.size && frame.handlers.isEmpty then
      match ← peek argc with
      | .function _ => return true
      | _ => return false
    else return false

/-- A call in tail position: an ordinary call, or one that takes over the running frame. -/
def tailCall (argc : Nat) (name : Option String) (ip : Nat) : Exec ν Effect := do
  if ← mayReuseFrame argc then
    let operands ← splitOff ((← height) - argc - 1)
    let frame ← popFrame
    pushAll operands
    let flags := frame.flags.inherited.union { tailCall := true }
    return .call { argc, returnAddress := frame.returnAddress, flags, name }
  else return .call { argc, returnAddress := ip + 1, name }

/-! ## Loops -/

/-- A number that a loop needs, `offset` slots below the top. -/
def loopNumber (offset : Nat) : Exec ν Number := do
  match ← peek offset with
  | .number n => return n
  | _ => raise .loopValue

/-- The three values of an iteration, with nil for those that are missing. -/
def iterationOf (vs : List Value) : List Value :=
  [vs.getD 0 .nil, vs.getD 1 .nil, vs.getD 2 .nil]

/-- The native function with a given routine among the first two, which every machine has. -/
def tableIterator : Value := .native ⟨0⟩

def rangeIterator : Value := .native ⟨1⟩

/-- Prepares an iteration: over a tuple of function, state and start, a table, a range, or whatever
can be called. -/
def iterPrepare : Exec ν Effect := do
  let v ← pop
  let s ← get
  match v with
  | .tuple vs => do
    pushAll (iterationOf (vs.map Value.scalar))
    return .next
  | .table _ =>
    if (s.unaryMetamethod v "__call").isSome then do
      pushAll [v, .nil, .nil]
      return .next
    else
      match s.unaryMetamethod v "__iterator" with
      | some handler => return .nested handler [v] .pushIteration
      | none => do
        pushAll [tableIterator, v, .nil]
        return .next
  | .range _ => do
    pushAll [rangeIterator, v, .nil]
    return .next
  | other => do
    pushAll [other, .nil, .nil]
    return .next

/-! ## Tuples and ranges -/

/-- Only the last of several values may stand for more than one. -/
def scalarsButLast : List Value → List Value
  | [] => []
  | [v] => [v]
  | v :: rest => v.scalar :: scalarsButLast rest

/-- Exactly `count` values, with nil for those that are missing. -/
def exactly (count : Nat) (vs : List Value) : List Value :=
  vs.take count ++ List.replicate (count - vs.length) .nil

def rangeBound (v : Value) : Exec ν Number :=
  match v.toNumber? with
  | some n => return n
  | none => raise .rangeBound

/-! ## The instructions -/

/-- Executes an instruction of the running function at an address. -/
def execute (p : Proto) (scope : Scope) (ip : Nat) (i : Instruction) : Exec ν Effect := do
  match i.op with
  | .nop | .debug => return .next
  | .invalid => defect (.invalidInstruction ip p.name)
  | .pop => do
    truncate ((← height) - operand i.a)
    return .next
  | .copy => result (← peek (operand i.a))
  | .swap => do
    swap (operand i.a) (operand i.b)
    return .next
  | .pushNil => result .nil
  | .pushBool => result (.boolean (i.a != 0))
  | .pushNumber => result (.number (← numberOperand p i.a))
  | .pushString => result (.string (← stringOperand p i.a))
  | .closure => do
    makeClosure scope (operand i.a)
    return .next
  | .newTable => do
    let s ← get
    let (t, heap) := s.heap.newTable (.withOrigin (operand i.a))
    set (s.setHeap heap)
    result (.table t)
  | .tableField => do
    let value ← popScalar
    let key ← popScalar
    let t ← initializerTarget
    let heap ← ofCause ((← get).heap.set t key value)
    modify fun s => s.setHeap heap
    return .next
  | .tableItem => do
    let value ← pop
    let t ← initializerTarget
    let values := if i.a != 0 then value.items else [value.scalar]
    let table ← ofCause (((← get).heap.table t).appendPositionals values)
    modify fun s => s.modifyHeap fun h => h.modifyTable t fun _ => table
    return .next
  | .load => do loadSymbol scope (← symbolOperand p i.a) (ip + 1)
  | .store => do
    let sym ← symbolOperand p i.a
    let value ← if 0 < i.b then do
        let items := (← peek 0).items
        pure (items[(i.b.toInt - 1).toNat]?.getD .nil).scalar
      else popScalar
    storeSymbol scope sym value (ip + 1)
  | .index => do
    let key ← keyOperand p i.a
    let object ← popScalar
    index object key (ip + 1)
  | .indexSet => do
    let key ← keyOperand p i.a
    let object ← popScalar
    let value ← popScalar
    storeIndex object key value (ip + 1)
  | .indexMulti => do
    let keys ← splitOff ((← height) - operand i.a)
    let object ← popScalar
    match object with
    | .table t => result (← ofCause ((← get).heap.path t (keys.map Value.scalar)))
    | other => raise (.indexOf other.typeName)
  | .selfIndex => do
    let object ← popScalar
    let key : Value := .string (← stringOperand p i.a)
    match ← ofExcept ((← get).resolveIndex key State.maxChain object) with
    | .value v => do
      pushAll [v, object]
      return .next
    | .call handler receiver => return .nested handler [receiver, key] (.pushMethod object)
  | .beginFn => do
    beginFunction p scope i
    return .next
  | .call =>
    return .call { argc := operand i.a, returnAddress := ip + 1, name := calleeName p i.b }
  | .thisCall =>
    return .call
      { argc := operand i.a, returnAddress := ip + 1, flags := { methodCall := true },
        name := calleeName p i.b }
  | .tailCall => tailCall (operand i.a) (calleeName p i.b) ip
  | .ret => do
    let v ← if i.a = 0 then pure .void else pop
    let frame ← popFrame
    return .leave frame v
  | .jump => jumpTo i.a
  | .jumpIfFalse => do
    if (← pop).truthy then return .next else jumpTo i.a
  | .jumpIfNil => do
    if (← peek 0).scalar.isNil then
      let _ ← pop
      jumpTo i.a
    else return .next
  | .jumpIfTrueOrPop => do
    if (← peek 0).truthy then jumpTo i.a
    else
      let _ ← pop
      return .next
  | .jumpIfFalseOrPop => do
    if (← peek 0).truthy then
      let _ ← pop
      return .next
    else jumpTo i.a
  | .toNumber => do
    match (← peek (operand i.a)).toNumber? with
    | some n => do
      poke (operand i.a) (.number n)
      return .next
    | none => raise .loopValue
  | .jumpFor => do
    let var ← loopNumber 0
    let step ← loopNumber 1
    let limit ← loopNumber 2
    let done := if Number.zero.lt step then limit.lt var else var.lt limit
    if done then jumpTo i.a else return .next
  | .increment => do
    let var ← loopNumber 0
    let step ← loopNumber 1
    poke 0 (.number (var.add step))
    return .next
  | .iterPrepare => iterPrepare
  | .iterUpdate => do
    let r ← pop
    poke 0 r.scalar
    result r
  | .negate => negate (ip + 1)
  | .concat => concat (ip + 1)
  | .length => length (ip + 1)
  | .equal => equal
  | .less => less
  | .lessEqual => lessEqual
  | .not => do result (.boolean !(← pop).truthy)
  | .conditionalNot => do result (.boolean ((← pop).truthy != (i.a != 0)))
  | .toBool => do result (.boolean (← pop).truthy)
  | .makeTuple => do
    let vs ← splitOff ((← height) - operand i.a)
    result (Value.spliced (scalarsButLast vs))
  | .scalar => do result (← popScalar)
  | .expandTuple => do
    let vs := (← pop).items.map Value.scalar
    pushAll (if 0 < i.a then exactly (operand i.a) vs else vs)
    return .next
  | .closeUpvalues => do
    closeLocals scope (operand i.a) (operand i.b)
    return .next
  | .makeRange => do
    let step ← if i.a = 3 then some <$> pop else pure none
    let last ← pop
    let first ← pop
    let step ← match step with
      | some v => rangeBound v
      | none => pure (.ofNat 1)
    let first ← rangeBound first
    let last ← rangeBound last
    result (.range ⟨first, last, step⟩)
  | .add | .sub | .mul | .div | .mod | .power =>
    match arithmetic? i.op with
    | some (name, apply) => arithmetic name apply (ip + 1)
    | none => return .next

/-- What an instruction does with the result of the call it waited for. -/
def finishNested (after : After) (v : Value) : Exec ν Unit :=
  match after with
  | .pushTruth negated => push (.boolean (v.truthy != negated))
  | .pushMethod receiver => pushAll [v.scalar, receiver]
  | .pushIteration => pushAll (iterationOf v.items)

end ScriptMachine.Exec
