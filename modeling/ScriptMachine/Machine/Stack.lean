import ScriptMachine.Fault.Basic
import ScriptMachine.Value.Basic

/-!
# Value stacks and cells

* A value stack holds operands and local slots. Offsets count from the top, indexes from the
  bottom; to take what is not there is a defect.
* A cell holds a captured variable. While it is open it stands for a slot of a stack; once closed
  it owns its value.
-/

namespace ScriptMachine

structure ValueStack where
  values : Array Value := #[]
deriving Inhabited

namespace ValueStack

def size (s : ValueStack) : Nat := s.values.size

def push (s : ValueStack) (v : Value) : ValueStack := ⟨s.values.push v⟩

def pushAll (s : ValueStack) (vs : List Value) : ValueStack := ⟨vs.foldl Array.push s.values⟩

/-- The value `offset` slots below the top. -/
def peek? (s : ValueStack) (offset : Nat) : Option Value :=
  if offset < s.size then s.values[s.size - 1 - offset]? else none

/-- Replaces the value `offset` slots below the top, if there is one. -/
def poke (s : ValueStack) (offset : Nat) (v : Value) : ValueStack :=
  if offset < s.values.size then ⟨s.values.setIfInBounds (s.values.size - 1 - offset) v⟩ else s

/-- The value at an index; nil beyond the stack. -/
def get (s : ValueStack) (i : Nat) : Value := s.values[i]?.getD .nil

/-- Writes at an index; beyond the stack nothing happens. -/
def set (s : ValueStack) (i : Nat) (v : Value) : ValueStack := ⟨s.values.setIfInBounds i v⟩

/-- Keeps the lowest values, at most `size` of them. -/
def truncate (s : ValueStack) (size : Nat) : ValueStack := ⟨s.values.shrink size⟩

/-- The values from an index on. -/
def above? (s : ValueStack) (start : Nat) : Option (List Value) :=
  if start ≤ s.size then some (s.values.extract start).toList else none

/-- Sets the slots from `low` to `high` to nil, as far as they exist. -/
def clearSlots (s : ValueStack) (low high : Nat) : ValueStack :=
  (List.range' low (min (high + 1) s.size - low)).foldl (fun s i => s.set i .nil) s

end ValueStack

structure CellId where
  index : Nat
deriving DecidableEq, Inhabited, Repr

/-- A captured variable. -/
inductive Cell
  | opened (owner : ThreadId) (slot : Nat)
  | closed (value : Value)
deriving Inhabited

namespace Cell

def isOpen : Cell → Bool
  | opened _ _ => true
  | closed _ => false

/-- The slot of an open cell. -/
def slot? : Cell → Option Nat
  | opened _ slot => some slot
  | closed _ => none

/-- The value of a cell, given the stacks. -/
def read (stackOf : ThreadId → ValueStack) : Cell → Value
  | opened owner slot => (stackOf owner).get slot
  | closed v => v

/-- A cell that owns its value; a closed cell stays as it is. -/
def close (stackOf : ThreadId → ValueStack) (c : Cell) : Cell := .closed (c.read stackOf)

/-- The text of a cell, given the description of its value. -/
def text (describe : Value → String) : Cell → String
  | opened _ slot => s!"Upvalue(open @{slot})"
  | closed v => "Upvalue(closed " ++ describe v ++ ")"

end Cell

end ScriptMachine
