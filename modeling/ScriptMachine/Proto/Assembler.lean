import ScriptMachine.Proto.Basic

/-!
# Assembling functions

Functions built instruction by instruction. Constants and symbols go into pools without repeats.
The first captured variable of a function is its environment.
-/

namespace ScriptMachine

/-- A function in the making. -/
structure Assembler where
  proto : Proto
  /-- The span of the instructions to come. -/
  span : Option SourceSpan := none
deriving Inhabited

namespace Assembler

/-- The top level of a source, which captures the table of globals. -/
def chunk (name : String) : Assembler :=
  ⟨{ name, flags := { isChunk := true }, upvalues := [.defaultEnv] }, none⟩

/-- A function nested in another, which captures the environment of that one. -/
def function (name : String) : Assembler :=
  ⟨{ name, upvalues := [.upvalue 0 Symbol.envName] }, none⟩

/-- The variable that holds the environment. -/
def env : Symbol := .upvalue 0 Symbol.envName

/-- A global of the environment. -/
def global (name : String) : Symbol := .global name env

def addFlags (b : Assembler) (flags : ProtoFlags) : Assembler :=
  { b with proto := { b.proto with flags := b.proto.flags.union flags } }

def annotate (b : Assembler) (name : String) (value : Value) : Assembler :=
  { b with proto := { b.proto with annotations := b.proto.annotations ++ [⟨name, value⟩] } }

/-- Declares the next local slot. -/
def addLocal (b : Assembler) (name : String) : Symbol × Assembler :=
  let sym := .slot b.proto.locals.length name
  (sym, { b with proto := { b.proto with locals := b.proto.locals ++ [sym] } })

/-- Captures a variable of the creating frame. -/
def capture (b : Assembler) (sym : Symbol) : Symbol × Assembler :=
  (.upvalue b.proto.upvalues.length sym.name,
   { b with proto := { b.proto with upvalues := b.proto.upvalues ++ [sym] } })

/-! ## Pools -/

/-- The place of an element in a pool, at the end if it is new. -/
def intern {α : Type} [BEq α] (pool : List α) (x : α) : Nat × List α :=
  match pool.findIdx? fun y => y == x with
  | some i => (i, pool)
  | none => (pool.length, pool ++ [x])

def symbolIndex (b : Assembler) (sym : Symbol) : Nat × Assembler :=
  let (i, symbols) := intern b.proto.symbols sym
  (i, { b with proto := { b.proto with symbols } })

def stringIndex (b : Assembler) (s : String) : Nat × Assembler :=
  let (i, strings) := intern b.proto.strings s
  (i, { b with proto := { b.proto with strings } })

/-- Numbers are told apart by their bits. -/
def numberIndex (b : Assembler) (n : Number) : Nat × Assembler :=
  let (i, numbers) := intern b.proto.numbers n
  (i, { b with proto := { b.proto with numbers } })

/-! ## Instructions -/

/-- Sets the span of the instructions to come; those before it have none. -/
def source (b : Assembler) (span : Option SourceSpan) : Assembler :=
  let spans := b.proto.spans.getD (Array.replicate b.proto.code.size none)
  { proto := { b.proto with spans := some spans }, span }

/-- The address of the next instruction. -/
def here (b : Assembler) : Nat := b.proto.code.size

/-- Adds an instruction. Answers its address. -/
def emit (b : Assembler) (op : Opcode) (x y : Int32) : Nat × Assembler :=
  (b.here,
   { b with
     proto := { b.proto with
       code := b.proto.code.push ⟨op, x, y⟩
       spans := b.proto.spans.map fun spans => spans.push b.span } })

/-- Adds an instruction that refers to a pool. -/
def emitPooled (op : Opcode) (y : Int32) (pooled : Nat × Assembler) : Nat × Assembler :=
  pooled.2.emit op (.ofNat pooled.1) y

def beginFn (b : Assembler) (params : Nat) (varargs : Bool) : Nat × Assembler :=
  b.emit .beginFn (.ofNat params) (if varargs then 1 else 0)

def pushBool (b : Assembler) (v : Bool) : Nat × Assembler := b.emit .pushBool (if v then 1 else 0) 0

def pushNumber (b : Assembler) (n : Number) : Nat × Assembler :=
  emitPooled .pushNumber 0 (b.numberIndex n)

def pushString (b : Assembler) (s : String) : Nat × Assembler :=
  emitPooled .pushString 0 (b.stringIndex s)

def load (b : Assembler) (sym : Symbol) : Nat × Assembler := emitPooled .load 0 (b.symbolIndex sym)

def store (b : Assembler) (sym : Symbol) : Nat × Assembler :=
  emitPooled .store 0 (b.symbolIndex sym)

/-- Stores one value of the tuple on top. -/
def storeItem (b : Assembler) (sym : Symbol) (item : Nat) : Nat × Assembler :=
  emitPooled .store (.ofNat (item + 1)) (b.symbolIndex sym)

/-- An indexing instruction with a string for a key, or with the key on the stack. -/
def keyed (b : Assembler) (op : Opcode) : Option String → Nat × Assembler
  | some key => emitPooled op 0 (b.stringIndex key)
  | none => b.emit op (-1) 0

def selfIndex (b : Assembler) (method : String) : Nat × Assembler :=
  emitPooled .selfIndex 0 (b.stringIndex method)

def newTable (b : Assembler) (origin : Nat) : Nat × Assembler := b.emit .newTable (.ofNat origin) 0

/-- Pushes a closure over a function that is added to the nested ones. -/
def closure (b : Assembler) (child : Proto) : Nat × Assembler :=
  let index := b.proto.protos.length
  { b with proto := { b.proto with protos := b.proto.protos ++ [child] } }.emit .closure
    (.ofNat index) 0

/-- A call, with the name the caller uses. -/
def callWith (b : Assembler) (op : Opcode) (argc : Nat) : Option String → Nat × Assembler
  | some name =>
    let (i, b) := b.stringIndex name
    b.emit op (.ofNat argc) (.ofNat (i + 1))
  | none => b.emit op (.ofNat argc) 0

/-- Returns nothing or one value. -/
def ret (b : Assembler) (values : Nat) : Nat × Assembler := b.emit .ret (.ofNat (min values 1)) 0

/-- A call in tail position, with the return that has to follow it. -/
def tailCall (b : Assembler) (argc : Nat) (name : Option String) : Nat × Assembler :=
  let (address, b) := b.callWith .tailCall argc name
  (address, (b.ret 1).2)

/-- A jump whose target is not known yet. -/
def jump (b : Assembler) (op : Opcode) : Nat × Assembler := b.emit op (-1) 0

def jumpTo (b : Assembler) (op : Opcode) (target : Nat) : Nat × Assembler :=
  b.emit op (.ofNat target) 0

/-- Points the jump at an address to the next instruction. -/
def patch (b : Assembler) (address : Nat) : Assembler :=
  { b with
    proto := { b.proto with
      code := b.proto.code.modify address fun i => { i with a := .ofNat b.here } } }

end Assembler

end ScriptMachine
