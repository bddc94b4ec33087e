/-!
# Symbols

Where a variable lives: in a slot of the running frame, in a captured cell of the running function,
or under a name in an environment.
-/

namespace ScriptMachine

inductive Symbol
  | slot (index : Nat) (name : String)
  | upvalue (index : Nat) (name : String)
  | global (name : String) (env : Symbol)
  /-- The table of globals itself. -/
  | defaultEnv
deriving DecidableEq, Inhabited, Repr

/-- The sort of a symbol, as serialized. -/
inductive SymbolKind
  | slot
  | upvalue
  | global
  | defaultEnv
deriving DecidableEq, Inhabited, Repr

namespace SymbolKind

def label : SymbolKind → String
  | slot => "Local"
  | upvalue => "Upvalue"
  | global => "Global"
  | defaultEnv => "DefaultEnv"

def tag : SymbolKind → UInt8
  | slot => 0
  | upvalue => 1
  | global => 2
  | defaultEnv => 3

def ofTag? (tag : UInt8) : Option SymbolKind :=
  [slot, upvalue, global, defaultEnv][tag.toNat]?

theorem ofTag?_tag (k : SymbolKind) : ofTag? k.tag = some k := by cases k <;> rfl

end SymbolKind

namespace Symbol

/-- The name of the variable that holds the environment. -/
def envName : String := "_ENV"

def kind : Symbol → SymbolKind
  | slot _ _ => .slot
  | upvalue _ _ => .upvalue
  | global _ _ => .global
  | defaultEnv => .defaultEnv

def name : Symbol → String
  | slot _ name | upvalue _ name | global name _ => name
  | defaultEnv => envName

/-- The slot or cell; globals and the default environment have none. -/
def index? : Symbol → Option Nat
  | slot index _ | upvalue index _ => some index
  | _ => none

def env? : Symbol → Option Symbol
  | global _ env => some env
  | _ => none

def text : Symbol → String
  | slot index name => s!"local {name}[{index}]"
  | upvalue index name => s!"upvalue {name}[{index}]"
  | global name env => "global " ++ name ++ " in (" ++ env.text ++ ")"
  | defaultEnv => "default env"

/-- An environment, which the table of globals can stand for. -/
def isEnvironment (s : Symbol) : Bool := s == defaultEnv || s.name == envName

end Symbol

end ScriptMachine
