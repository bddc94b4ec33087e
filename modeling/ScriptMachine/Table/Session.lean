import ScriptMachine.Table.Basic

/-!
# Sessions with a table

A table as those who use it see it: a state that answers commands. What a table has been through is
a list of commands.

* `respond` answers one command.
* `walk` follows `next` and may store on the way; `clearingWalk` clears every key it meets.
-/

namespace ScriptMachine

namespace TableSession

/-- What can be asked of a table. -/
inductive Command
  | get (key : Value)
  | getInt (key : Int)
  | getString (key : String)
  | set (key value : Value)
  | setInt (key : Int) (value : Value)
  | setString (key : String) (value : Value)
  | append (value : Value)
  | appendPositional (value : Value)
  | remove (key : Value)
  | length
  | count
  | origin
  | next (key : Value)
  | pairs
  | keys
  | values
  | sweep
  | clear
  | metatable
  | setMetatable (metatable : Option TableId)
  /-- Stores each key of a progression under itself. -/
  | fill (first last step : Int)
  /-- Traverses the table, and stores when it reaches a key. -/
  | walk (change : Option (Value × Value × Value))
  /-- Traverses the table and clears each key before going on. -/
  | clearingWalk
deriving Inhabited

/-- An answer. -/
inductive Reply
  | nothing
  | value (v : Value)
  | amount (n : Nat)
  | list (vs : List Value)
deriving Inhabited

/-- Work on a table; what was done before an error stays done. -/
abbrev Work := EStateM Cause Table

/-- The result, or the error. -/
def lift {α : Type} : Except Cause α → Work α
  | .ok a => pure a
  | .error cause => throw cause

def store (key value : Value) : Work Unit := do
  set (← lift ((← get).set key value))

/-- The keys that a traversal from `current` meets, at most `fuel` of them, with work done at each
of them. -/
def traverse (visit : Value → Work Unit) : Nat → Value → Work (List Value)
  | 0, _ => return []
  | fuel + 1, current => do
    match ← lift ((← get).next current) with
    | none => return []
    | some (key, _) =>
      visit key
      return key :: (← traverse visit fuel key)

/-- Stores integers under themselves. -/
def storeEach : List Int → Work Unit
  | [] => return ()
  | i :: rest => do
    store (.number (.ofInt i)) (.number (.ofInt i))
    storeEach rest

/-- A traversal stops after this many keys. -/
def walkLimit : Nat := 200

/-- The terms of a progression up to a bound. -/
def progression (first last step : Int) : List Int :=
  (List.range ((last - first).fdiv step + 1).toNat).map fun i : Nat => first + step * i

/-- The answer to a command, given equality before metamethods. -/
def respond (same : Value → Value → Bool) : Command → Work Reply
  | .get key => return .value ((← get).get key)
  | .getInt key => return .value ((← get).getInt key)
  | .getString key => return .value ((← get).getString key)
  | .set key value => do store key value; return .nothing
  | .setInt key value => do store (.number (.ofInt key)) value; return .nothing
  | .setString key value => do modify fun t => t.setString key value; return .nothing
  | .append value => do modify fun t => t.append value; return .nothing
  | .appendPositional value => do
    set (← lift ((← get).appendPositional value))
    return .nothing
  | .remove key => do
    let (value, changed) := (← get).remove key
    set changed
    return .value value
  | .length => do
    let n := (← get).length
    modify Table.withKnownLength
    return .amount n
  | .count => return .amount (← get).count
  | .origin => return .amount (← get).origin
  | .next key => do
    match ← lift ((← get).next key) with
    | some (k, v) => return .list [k, v]
    | none => return .nothing
  | .pairs => return .list ((← get).pairs.flatMap fun (k, v) => [k, v])
  | .keys => return .list (← get).keys
  | .values => return .list (← get).values
  | .sweep => do modify Table.sweep; return .nothing
  | .clear => do modify Table.clear; return .nothing
  | .metatable => return match (← get).metatable with
    | some m => .value (.table m)
    | none => .nothing
  | .setMetatable m => do modify fun t => { t with metatable := m }; return .nothing
  | .fill first last step => do storeEach (progression first last step); return .nothing
  | .walk change => do
    let visit key := match change with
      | some (k, k', v') => if same key k then store k' v' else return ()
      | none => return ()
    return .list (← traverse visit walkLimit .nil)
  | .clearingWalk => do
    return .list (← traverse (fun key => store key .nil) (← get).count .nil)

end TableSession

end ScriptMachine
