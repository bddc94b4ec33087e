import ScriptMachine.Chunk.Format
import ScriptMachine.Proto.Basic

/-!
# Writing chunks

Each symbol of a function is written once, into a pool; an environment stands before the globals
that use it. A source span equal to the one before it takes one byte.
-/

namespace ScriptMachine.Chunk

/-- Bytes, or why there are none. -/
abbrev Written := Except Fault (List UInt8)

def writeLength (n : Nat) : Written :=
  if n < 0x100000000 then .ok (littleEndian 4 n) else .error (.format (.lengthOver32Bits n))

def writeString (s : String) : Written := do
  let bytes := s.toUTF8.data.toList
  return (← writeLength bytes.length) ++ bytes

def writeNumber (n : Number) : List UInt8 := littleEndian 8 n.bits.toNat

def writeWord (n : UInt32) : List UInt8 := littleEndian 4 n.toNat

/-- Writes the elements of a list one after the other. -/
def writeEach {α : Type} (write : α → Written) : List α → Written
  | [] => .ok []
  | x :: rest => do
    let first ← write x
    return first ++ (← writeEach write rest)

/-- A list with its length in front. -/
def writeList {α : Type} (write : α → Written) (xs : List α) : Written := do
  let length ← writeLength xs.length
  return length ++ (← writeEach write xs)

/-! ## Symbols -/

/-- Distinct symbols, each with its environment's place in the pool plus one, or zero. -/
abbrev SymbolPool := List (Symbol × Nat)

/-- The place of a symbol in the pool. -/
def SymbolPool.position? (pool : SymbolPool) (s : Symbol) : Option Nat :=
  pool.findIdx? fun entry => entry.1 == s

/-- The pool with a symbol in it, and its environments before it. -/
def SymbolPool.add (pool : SymbolPool) : Symbol → SymbolPool
  | .global name env =>
    if (pool.position? (.global name env)).isSome then pool
    else
      let pool := SymbolPool.add pool env
      pool ++ [(.global name env, (pool.position? env).getD 0 + 1)]
  | s => if (pool.position? s).isSome then pool else pool ++ [(s, 0)]

/-- The symbols of a function. -/
def SymbolPool.ofProto (locals upvalues symbols : List Symbol) : SymbolPool :=
  (locals ++ upvalues ++ symbols).foldl SymbolPool.add []

def writeSymbol (entry : Symbol × Nat) : Written := do
  let index ← writeLength (entry.1.index?.getD 0)
  let name ← writeString entry.1.name
  let link ← writeLength entry.2
  return entry.1.kind.tag :: index ++ name ++ link

def writeSymbolIndex (pool : SymbolPool) (s : Symbol) : Written :=
  match pool.position? s with
  | some i => writeLength i
  | none => .error (.defect (.symbolMissing s.text))

/-! ## Annotations -/

/-- A key and a value, one after the other. -/
def writePair (write : Value → Written) (pair : Value × Value) : Written := do
  let key ← write pair.1
  return key ++ (← write pair.2)

/-- The value of an annotation: nil, a boolean, a number, a string, or a table of them, nested at
most so many levels deep. -/
def writeValue (h : Heap) : Nat → Value → Written
  | 0, _ => .error (.format .tablesTooDeep)
  | fuel + 1, v =>
    match v with
    | .nil => .ok [Kind.nil.tag]
    | .boolean b => .ok [Kind.boolean.tag, if b then 1 else 0]
    | .number n => .ok (Kind.number.tag :: writeNumber n)
    | .string s => do return Kind.string.tag :: (← writeString s)
    | .table t => do
      return Kind.table.tag :: (← writeList (writePair (writeValue h fuel)) (h.table t).pairs)
    | other => .error (.format (.unserializable other.typeName))

def writeNamedValue (h : Heap) (a : NamedValue) : Written := do
  let name ← writeString a.name
  return name ++ (← writeValue h (maxNesting + 1) a.value)

/-! ## Code and spans -/

def writeInstruction (i : Instruction) : List UInt8 :=
  i.op.code :: writeWord i.a.toUInt32 ++ writeWord i.b.toUInt32

def writeSpan (s : SourceSpan) : List UInt8 :=
  writeWord s.source ++ writeWord s.fromLine ++ writeWord s.toLine ++ writeWord s.fromChar ++
  writeWord s.toChar ++ [if s.isStop then 1 else 0]

/-- Spans, given the one before them: nothing, the same again, or a new one. -/
def writeSpans (previous : Option SourceSpan) : List (Option SourceSpan) → List UInt8
  | [] => []
  | none :: rest => 0 :: writeSpans none rest
  | some s :: rest =>
    (if previous = some s then [1] else 2 :: writeSpan s) ++ writeSpans (some s) rest

def writeSpanTable (name : String) (instructions : Nat) :
    Option (Array (Option SourceSpan)) → Written
  | none => .ok [0]
  | some spans =>
    if spans.size = instructions then .ok (1 :: writeSpans none spans.toList)
    else .error (.format (.sourceCount name spans.size instructions))

/-! ## Functions -/

mutual

/-- A function at a nesting depth. -/
def writeFunction (h : Heap) (depth : Nat) : Proto → Written
  | ⟨name, flags, annotations, locals, upvalues, symbols, protos, strings, numbers, code, spans⟩ =>
    if maxNesting < depth then .error (.format .functionsTooDeep)
    else do
      let header ← writeString name
      let annotated ← writeList (writeNamedValue h) annotations
      let pool := SymbolPool.ofProto locals upvalues symbols
      let pooled ← writeList writeSymbol pool
      let localIndexes ← writeList (writeSymbolIndex pool) locals
      let upvalueIndexes ← writeList (writeSymbolIndex pool) upvalues
      let symbolIndexes ← writeList (writeSymbolIndex pool) symbols
      let nestedCount ← writeLength protos.length
      let nested ← writeFunctions h (depth + 1) protos
      let stringPool ← writeList writeString strings
      let numberPool ← writeList (fun n => .ok (writeNumber n)) numbers
      let body ← writeList (fun i => .ok (writeInstruction i)) code.toList
      let spanTable ← writeSpanTable name code.size spans
      return header ++ flags.bits :: annotated ++ pooled ++ localIndexes ++ upvalueIndexes ++
        symbolIndexes ++ nestedCount ++ nested ++ stringPool ++ numberPool ++ body ++ spanTable

def writeFunctions (h : Heap) (depth : Nat) : List Proto → Written
  | [] => .ok []
  | p :: rest => do
    let first ← writeFunction h depth p
    return first ++ (← writeFunctions h depth rest)

end

/-- The bytes of a function and everything nested in it. -/
def dump (h : Heap) (p : Proto) : Written := do
  return magic ++ version :: (← writeFunction h 0 p)

end ScriptMachine.Chunk
