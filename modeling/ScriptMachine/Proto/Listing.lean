import ScriptMachine.Heap.Text
import ScriptMachine.Proto.Basic

/-!
# Listings

A function in readable form: its pools, and one line per instruction with what its operands refer
to. Nested functions follow, indented.
-/

namespace ScriptMachine.Proto

/-- The element at an operand, which may be negative. -/
def operand? {α : Type} (pool : List α) (i : Int32) : Option α :=
  if i < 0 then none else pool[i.toInt.toNat]?

/-- What an instruction refers to. -/
def comment (p : Proto) (i : Instruction) : Option String :=
  let string (index : Int32) := (operand? p.strings index).map Text.quote
  match i.op with
  | .pushNumber => (operand? p.numbers i.a).map Number.literal
  | .pushString | .selfIndex | .index | .indexSet => string i.a
  | .load | .store => (operand? p.symbols i.a).map Symbol.text
  | .closure => (operand? p.protos i.a).map fun child => "function " ++ child.name
  | .call | .thisCall | .tailCall => if 0 < i.b then string (i.b - 1) else none
  | _ => none

def instructionLine (p : Proto) (ip : Nat) (i : Instruction) : String :=
  Text.padLeft 4 '0' (toString ip) ++ "  " ++ Text.padRight 10 i.op.mnemonic ++ " " ++
  Text.padLeft 4 ' ' (toString i.a.toInt) ++ " " ++ Text.padLeft 4 ' ' (toString i.b.toInt) ++
  (match p.comment i with
   | some text => "  ; " ++ text
   | none => "") ++
  (match p.span? ip with
   | some s =>
     "  @" ++ s.location ("#" ++ toString s.source) false ++ (if s.isStop then "!" else "")
   | none => "")

def symbolLine (symbols : List Symbol) : String :=
  String.intercalate ", " (symbols.map Symbol.text)

/-- The lines of one function, without those nested in it. -/
def ownLines (h : Heap) (names : FunctionNames) (p : Proto) : List String :=
  ["function " ++ p.name ++ " " ++ p.flags.text] ++
  p.annotations.map (fun a => "  .annotation " ++ a.name ++ " = " ++ h.describe names a.value) ++
  ["  .locals " ++ symbolLine p.locals,
   "  .upvalues " ++ symbolLine p.upvalues,
   "  .symbols " ++ symbolLine p.symbols,
   "  .strings " ++ Text.bracketed (p.strings.map Text.quote),
   "  .numbers " ++ Text.bracketed (p.numbers.map Number.literal)] ++
  (p.code.toList.zipIdx.map fun (i, ip) => "  " ++ p.instructionLine ip i)

mutual

/-- The lines of a function and of those nested in it, each level two blanks further in. -/
def lines (h : Heap) (names : FunctionNames) : Proto → List String
  | ⟨n, f, a, l, u, s, p, t, m, c, r⟩ =>
    ownLines h names ⟨n, f, a, l, u, s, p, t, m, c, r⟩ ++
    (nestedLines h names p).map fun line => "  " ++ line

def nestedLines (h : Heap) (names : FunctionNames) : List Proto → List String
  | [] => []
  | p :: rest => lines h names p ++ nestedLines h names rest

end

/-- The listing of a function; every line ends in a line break. A function and a copy of it have the
same listing, whatever the numbers of the tables in their annotations. -/
def listing (h : Heap) (names : FunctionNames) (p : Proto) : String :=
  Text.hideAddresses (String.join ((lines h names p).map fun line => line ++ "\n"))

end ScriptMachine.Proto
