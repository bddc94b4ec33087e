import ScriptMachine.Chunk.Format
import ScriptMachine.Proto.Basic

/-!
# Reading chunks

Every length is held against the bytes that are left, so a corrupt chunk cannot ask for more than
it brings. The tables of annotations are made anew on the heap.
-/

namespace ScriptMachine.Chunk

/-- What is left to read, and the heap on which tables are made. -/
structure Input where
  rest : List UInt8
  heap : Heap

abbrev Reader := StateT Input (Except Fault)

def malformed {α : Type} (fault : FormatFault) : Reader α := throw (.format fault)

/-- The next bytes. -/
def readRaw (count : Nat) : Reader (List UInt8) := do
  let input ← get
  if input.rest.length < count then malformed .endOfData
  else
    set { input with rest := input.rest.drop count }
    return input.rest.take count

def readByte : Reader UInt8 := do
  let bytes ← readRaw 1
  return bytes.headD 0

def readWord : Reader UInt32 := do return (ofLittleEndian (← readRaw 4)).toUInt32

def readOperand : Reader Int32 := do return (← readWord).toInt32

def readNumber : Reader Number := do return ⟨(ofLittleEndian (← readRaw 8)).toUInt64⟩

/-- A length, which is no more than the number of bytes left. -/
def readLength : Reader Nat := do
  let length := (← readWord).toNat
  if (← get).rest.length < length then malformed (.lengthTooLarge length)
  else return length

def readString : Reader String := do
  let bytes ← readRaw (← readLength)
  match String.fromUTF8? ⟨bytes.toArray⟩ with
  | some s => return s
  | none => malformed .notUnicode

/-- Reads `count` things one after the other. -/
def readEach {α : Type} (read : Reader α) : Nat → Reader (List α)
  | 0 => return []
  | count + 1 => do
    let first ← read
    return first :: (← readEach read count)

/-- A list with its length in front. -/
def readList {α : Type} (read : Reader α) : Reader (List α) := do readEach read (← readLength)

/-! ## Annotations -/

/-- Stores `count` pairs into a table. -/
def readPairs (readValue : Reader Value) (t : Table) : Nat → Reader Table
  | 0 => return t
  | count + 1 => do
    let key ← readValue
    let value ← readValue
    match t.set key value with
    | .ok t => readPairs readValue t count
    | .error cause => throw (.raise cause)

/-- The value of an annotation. -/
def readValue : Nat → Reader Value
  | 0 => malformed .tablesTooDeep
  | fuel + 1 => do
    let tag ← readByte
    match Kind.ofTag? tag with
    | some .nil => return .nil
    | some .boolean => return .boolean ((← readByte) != 0)
    | some .number => return .number (← readNumber)
    | some .string => return .string (← readString)
    | some .table => do
      let count ← readLength
      let t ← readPairs (readValue fuel) .empty count
      let input ← get
      let (id, heap) := input.heap.newTable t
      set { input with heap }
      return .table id
    | _ => malformed (.annotationTag tag.toNat)

def readNamedValue : Reader NamedValue := do
  let name ← readString
  return ⟨name, ← readValue (maxNesting + 1)⟩

/-! ## Symbols -/

/-- One symbol of the pool; the environment of a global is an earlier one. -/
def readSymbol (pool : List Symbol) : Reader Symbol := do
  let tag ← readByte
  match SymbolKind.ofTag? tag with
  | none => malformed (.unknownSymbolKind tag.toNat)
  | some kind => do
    let index := (← readWord).toNat
    let name ← readString
    let link := (← readWord).toNat
    match kind with
    | .slot => return .slot index name
    | .upvalue => return .upvalue index name
    | .defaultEnv => return .defaultEnv
    | .global =>
      match if link = 0 then none else pool[link - 1]? with
      | some env => return .global name env
      | none => malformed (.badEnvironmentLink name)

/-- Extends a pool by `count` symbols. -/
def readSymbolsInto (pool : List Symbol) : Nat → Reader (List Symbol)
  | 0 => return pool
  | count + 1 => do readSymbolsInto (pool ++ [← readSymbol pool]) count

def readSymbolPool : Reader (List Symbol) := do readSymbolsInto [] (← readLength)

def readSymbolIndex (pool : List Symbol) : Reader Symbol := do
  let i := (← readWord).toNat
  match pool[i]? with
  | some s => return s
  | none => malformed (.symbolIndex i)

/-! ## Code and spans -/

def readInstruction : Reader Instruction := do
  let byte ← readByte
  match Opcode.ofCode? byte with
  | none => malformed (.unknownOpcode byte.toNat)
  | some op => return ⟨op, ← readOperand, ← readOperand⟩

def readSpan : Reader SourceSpan := do
  return ⟨← readWord, ← readWord, ← readWord, ← readWord, ← readWord, (← readByte) != 0⟩

/-- The span of one instruction, given the one before it. -/
def readTaggedSpan (previous : Option SourceSpan) : Reader (Option SourceSpan) := do
  let tag ← readByte
  match tag.toNat with
  | 0 => return none
  | 1 =>
    match previous with
    | some s => return some s
    | none => malformed .repeatedNothing
  | 2 => return some (← readSpan)
  | other => malformed (.sourceTag other)

def readSpans (previous : Option SourceSpan) : Nat → Reader (List (Option SourceSpan))
  | 0 => return []
  | count + 1 => do
    let span ← readTaggedSpan previous
    return span :: (← readSpans span count)

def readSpanTable (instructions : Nat) : Reader (Option (Array (Option SourceSpan))) := do
  let marker ← readByte
  match marker.toNat with
  | 0 => return none
  | 1 => return some (← readSpans none instructions).toArray
  | other => malformed (.sourceMarker other)

/-! ## Functions -/

def readFlags : Reader ProtoFlags := do
  let bits ← readByte
  match ProtoFlags.ofBits? bits with
  | some flags => return flags
  | none => malformed (.invalidFlags bits.toNat)

/-- A function, with at most so many levels of functions in it. -/
def readFunction : Nat → Reader Proto
  | 0 => malformed .functionsTooDeep
  | fuel + 1 => do
    let name ← readString
    let flags ← readFlags
    let annotations ← readList readNamedValue
    let pool ← readSymbolPool
    let locals ← readList (readSymbolIndex pool)
    let upvalues ← readList (readSymbolIndex pool)
    let symbols ← readList (readSymbolIndex pool)
    let protos ← readList (readFunction fuel)
    let strings ← readList readString
    let numbers ← readList readNumber
    let code ← readList readInstruction
    let spans ← readSpanTable code.length
    return ⟨name, flags, annotations, locals, upvalues, symbols, protos, strings, numbers,
      code.toArray, spans⟩

def readChunk : Reader Proto := do
  let mark ← readRaw magic.length
  if mark ≠ magic then malformed .badMagic
  else
    let v ← readByte
    if v ≠ version then malformed (.unsupportedVersion v.toNat)
    else
      let p ← readFunction (maxNesting + 1)
      let left := (← get).rest.length
      if left ≠ 0 then malformed (.trailingBytes left p.name)
      else return p

/-- The function that bytes stand for, and the heap with its annotation tables. -/
def undump (h : Heap) (bytes : List UInt8) : Except Fault (Proto × Heap) := do
  let (p, input) ← readChunk.run ⟨bytes, h⟩
  return (p, input.heap)

end ScriptMachine.Chunk
