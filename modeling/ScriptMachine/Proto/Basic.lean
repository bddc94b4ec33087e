import ScriptMachine.Heap.Basic
import ScriptMachine.Proto.Opcode
import ScriptMachine.Symbol

/-!
# Functions as compiled

A `Proto` holds the instructions of one function and the pools that their operands refer to. It is
never changed; every closure over it shares it.
-/

namespace ScriptMachine

/-- The place in a source that an instruction comes from. -/
structure SourceSpan where
  source : UInt32
  fromLine : UInt32
  toLine : UInt32
  fromChar : UInt32
  toChar : UInt32
  /-- Debuggers stop here. -/
  isStop : Bool := false
deriving DecidableEq, Inhabited, Repr

/-- The place in words: the line alone in the short form, lines and characters otherwise. -/
def SourceSpan.location (s : SourceSpan) (sourceName : String) (lineOnly : Bool) : String :=
  let line := toString s.fromLine
  let first := line ++ "," ++ toString s.fromChar
  if lineOnly then sourceName ++ ":" ++ line
  else if s.fromLine = s.toLine then
    if s.fromChar = s.toChar then sourceName ++ ":(" ++ first ++ ")"
    else sourceName ++ ":(" ++ first ++ "-" ++ toString s.toChar ++ ")"
  else sourceName ++ ":(" ++ first ++ "-" ++ toString s.toLine ++ "," ++ toString s.toChar ++ ")"

/-- How a function takes its arguments, and whether it is the top level of a source. -/
structure ProtoFlags where
  isChunk : Bool := false
  takesSelf : Bool := false
  /-- A nil receiver is put in front when the call is not in method syntax. -/
  implicitThis : Bool := false
deriving DecidableEq, Inhabited, Repr

namespace ProtoFlags

def bits (f : ProtoFlags) : UInt8 :=
  (if f.isChunk then 1 else 0) + (if f.takesSelf then 2 else 0) + (if f.implicitThis then 4 else 0)

/-- The flags of three bits; higher bits have no meaning and are refused. -/
def ofBits? (bits : UInt8) : Option ProtoFlags :=
  if bits < 8 then some ⟨bits % 2 = 1, bits / 2 % 2 = 1, bits / 4 = 1⟩ else none

theorem ofBits?_bits (f : ProtoFlags) : ofBits? f.bits = some f := by
  rcases f with ⟨_ | _, _ | _, _ | _⟩ <;> rfl

/-- Every flag of `g` is set in `f`. -/
def contains (f g : ProtoFlags) : Bool :=
  (!g.isChunk || f.isChunk) && (!g.takesSelf || f.takesSelf) && (!g.implicitThis || f.implicitThis)

def union (f g : ProtoFlags) : ProtoFlags :=
  ⟨f.isChunk || g.isChunk, f.takesSelf || g.takesSelf, f.implicitThis || g.implicitThis⟩

def text (f : ProtoFlags) : String :=
  let names := (if f.isChunk then ["chunk"] else []) ++ (if f.takesSelf then ["self"] else []) ++
    (if f.implicitThis then ["implicit-this"] else [])
  "[" ++ String.intercalate "," names ++ "]"

end ProtoFlags

/-- A named value that the compiler attached to a function. -/
structure NamedValue where
  name : String
  value : Value
deriving Inhabited

/-- One compiled function. -/
structure Proto where
  name : String
  flags : ProtoFlags := {}
  annotations : List NamedValue := []
  /-- Local slots, parameters first. -/
  locals : List Symbol := []
  /-- What to capture, as the creating frame sees it. -/
  upvalues : List Symbol := []
  symbols : List Symbol := []
  protos : List Proto := []
  strings : List String := []
  numbers : List Number := []
  code : Array Instruction := #[]
  /-- One span per instruction, if the function has them. -/
  spans : Option (Array (Option SourceSpan)) := none
deriving Inhabited

namespace Proto

def span? (p : Proto) (ip : Nat) : Option SourceSpan := do
  let spans ← p.spans
  let span ← spans[ip]?
  span

def annotation? (p : Proto) (name : String) : Option Value :=
  (p.annotations.find? fun a => a.name == name).map NamedValue.value

/-- Nothing but environments is captured, so that the function can be loaded on its own. -/
def capturesOnlyEnvironment (p : Proto) : Bool := p.upvalues.all Symbol.isEnvironment

/-- Annotations with equal names and values. -/
def annotationsEqual (h : Heap) : List NamedValue → List NamedValue → Bool
  | [], [] => true
  | a :: as, b :: bs =>
    a.name == b.name && h.rawEquals a.value b.value && annotationsEqual h as bs
  | _, _ => false

def numbersEqual : List Number → List Number → Bool
  | [], [] => true
  | a :: as, b :: bs => a.equals b && numbersEqual as bs
  | _, _ => false

mutual

/-- Equal in every field, with numbers and annotations compared as scripts compare them. -/
def equals (h : Heap) : Proto → Proto → Bool
  | ⟨n, f, a, l, u, s, p, t, m, c, r⟩, ⟨n', f', a', l', u', s', p', t', m', c', r'⟩ =>
    n == n' && f == f' && annotationsEqual h a a' && l == l' && u == u' && s == s' &&
    protosEqual h p p' && t == t' && numbersEqual m m' && c == c' && r == r'

def protosEqual (h : Heap) : List Proto → List Proto → Bool
  | [], [] => true
  | a :: as, b :: bs => equals h a b && protosEqual h as bs
  | _, _ => false

end

end Proto

end ScriptMachine
