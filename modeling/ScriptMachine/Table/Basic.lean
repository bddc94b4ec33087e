import ScriptMachine.Table.Key

/-!
# Tables

A table keeps a run of integer keys from its origin on in an array of slots, and every other key in
a list of entries, in the order in which they came.

* An entry set to nil stays as a tombstone, so that a traversal can go on from its key. Tombstones
  are swept when a value is stored under a key that had none while there may be some.
* A store a little beyond the slots makes the array grow, and entries that then follow on the
  slots move into it.
* The length is the number of values from the origin up to the first nil.
-/

namespace ScriptMachine

/-- A value filed under a key, with the key as it was given. -/
structure Entry where
  key : Key
  name : Value
  value : Value
deriving Inhabited

structure Table where
  slots : Array Value := #[]
  entries : List Entry := []
  /-- The first integer key of the slots: zero or one. -/
  origin : Nat := 1
  /-- Set when an entry may be a tombstone. -/
  mayHoldTombstones : Bool := false
  /-- The length, as long as it is known. -/
  knownLength : Option Nat := some 0
  metatable : Option TableId := none
  /-- Positional entries written by a constructor so far. -/
  cursor : Nat := 0
deriving Inhabited

namespace Table

/-- An array may always grow to twice this many slots. -/
def growthWindow : Nat := 32

/-- An empty table; origins above one count as one. -/
def withOrigin (origin : Nat) : Table := { origin := min origin 1 }

def empty : Table := withOrigin 1

/-! ## Entries -/

def findEntry (entries : List Entry) (key : Key) : Option Entry :=
  entries.find? fun e => e.key == key

def eraseEntry (entries : List Entry) (key : Key) : List Entry :=
  entries.eraseP fun e => e.key == key

/-- The entries with another value in the entry of the key. -/
def replaceValue (entries : List Entry) (key : Key) (value : Value) : List Entry :=
  entries.map fun e => if e.key == key then { e with value } else e

/-! ## Reading -/

/-- The slot of an integral number at or past the origin. -/
def slotOf (t : Table) (n : Number) : Option Nat :=
  match n.integer? with
  | some i =>
    if (t.origin : Int) ≤ i && i < (Number.signWeight : Int) then some (i.toNat - t.origin) else none
  | none => none

/-- The slot of a key that is a number. Tuples have none. -/
def slotOfKey (t : Table) : Value → Option Nat
  | .number n => t.slotOf n
  | _ => none

/-- The key is one of the slots. -/
def ownSlot (t : Table) (key : Value) : Option Nat :=
  (t.slotOfKey key).filter (· < t.slots.size)

/-- The value of an entry, nil if there is none. -/
def entryValue (t : Table) (key : Key) : Value :=
  match findEntry t.entries key with
  | some e => e.value
  | none => .nil

/-- The value under a key; a value that cannot be a key reads as nil. -/
def get (t : Table) (key : Value) : Value :=
  match t.ownSlot key with
  | some i => t.slots[i]?.getD .nil
  | none =>
    match Key.ofValue key with
    | .ok k => t.entryValue k
    | .error _ => .nil

def getInt (t : Table) (i : Int) : Value := t.get (.number (.ofInt i))

def getString (t : Table) (s : String) : Value := t.entryValue (.string s)

/-! ## Writing -/

/-- Writes a slot. A cleared slot stays, so that a traversal can go on from it. -/
def setSlot (t : Table) (i : Nat) (value : Value) : Table :=
  { t with slots := t.slots.setIfInBounds i value, knownLength := none }

/-- The key behind the last slot. -/
def nextKey (t : Table) : Key := .ofNat (t.slots.size + t.origin)

/-- Adds one slot, with the value of the entry that has its key, which leaves the entries. -/
def pushSlot (t : Table) : Table :=
  let value := t.entryValue t.nextKey
  { t with slots := t.slots.push value, entries := eraseEntry t.entries t.nextKey }

/-- Adds `count` slots. -/
def pushSlots (t : Table) : Nat → Table
  | 0 => t
  | count + 1 => t.pushSlot.pushSlots count

/-- Adds slots as long as the next key has an entry; there are at most `fuel` of them. -/
def absorb (t : Table) : Nat → Table
  | 0 => t
  | fuel + 1 =>
    if (findEntry t.entries t.nextKey).isSome then t.pushSlot.absorb fuel else t

/-- Makes the array `size` slots long, and longer while entries follow on. -/
def grow (t : Table) (size : Nat) : Table :=
  let grown := t.pushSlots (size - t.slots.size)
  { grown.absorb grown.entries.length with knownLength := none }

/-- Drops the tombstones. -/
def sweep (t : Table) : Table :=
  { t with entries := t.entries.filter fun e => !e.value.isNil, mayHoldTombstones := false }

/-- The entries after a store: a new key comes last, and a nil is not stored under a new key. -/
def writeEntry (entries : List Entry) (key : Key) (name value : Value) : List Entry :=
  match findEntry entries key with
  | some _ => replaceValue entries key value
  | none => if value.isNil then entries else entries ++ [⟨key, name, value⟩]

/-- Stores into the entries. -/
def setEntry (t : Table) (key : Key) (name value : Value) : Table :=
  let previous := findEntry t.entries key
  if previous.isNone && value.isNil then t
  else
    let wasNil := match previous with
      | some e => e.value.isNil
      | none => true
    let written := { t with entries := writeEntry t.entries key name value }
    let swept :=
      if t.mayHoldTombstones && !value.isNil && wasNil then written.sweep
      else if value.isNil then { written with mayHoldTombstones := true }
      else written
    match name with
    | .number _ => { swept with knownLength := none }
    | _ => swept

/-- Stores a scalar under a scalar key. -/
def store (t : Table) (key : Key) (name value : Value) : Table :=
  match t.slotOfKey name with
  | some i =>
    if i < t.slots.size then t.setSlot i value
    else if !value.isNil && i < max t.slots.size growthWindow * 2 then
      let grown := t.grow (i + 1)
      { grown with entries := eraseEntry grown.entries key }.setSlot i value
    else t.setEntry key name value
  | none => t.setEntry key name value

/-- Stores a value under a key; both act as their scalars. -/
def set (t : Table) (key value : Value) : Except Cause Table := do
  let k ← Key.ofValue key
  return t.store k key.scalar value.scalar

def setString (t : Table) (s : String) (value : Value) : Table :=
  t.setEntry (.string s) (.string s) value.scalar

def setInt (t : Table) (i : Int) (value : Value) : Except Cause Table :=
  t.set (.number (.ofInt i)) value

/-- Takes a key out and answers the value it had. A cleared slot stays. -/
def remove (t : Table) (key : Value) : Value × Table :=
  match t.ownSlot key with
  | some i => (t.slots[i]?.getD .nil, t.setSlot i .nil)
  | none =>
    match Key.ofValue key with
    | .ok k => (t.entryValue k, { t with entries := eraseEntry t.entries k, knownLength := none })
    | .error _ => (.nil, { t with knownLength := none })

/-- Drops everything but the origin, the metatable and the constructor's position. -/
def clear (t : Table) : Table :=
  { t with slots := #[], entries := [], mayHoldTombstones := false, knownLength := some 0 }

/-! ## Length -/

/-- The number of values in the entries from this integer on, up to the first that is nil. -/
def runLength (entries : List Entry) (start : Nat) : Nat → Nat
  | 0 => 0
  | fuel + 1 =>
    match findEntry entries (.ofNat start) with
    | some e => if e.value.isNil then 0 else runLength entries (start + 1) fuel + 1
    | none => 0

/-- The length, worked out from the slots and the entries. -/
def measure (t : Table) : Nat :=
  let n := (t.slots.toList.takeWhile fun v => !v.isNil).length
  if n = t.slots.size then n + runLength t.entries (n + t.origin) t.entries.length else n

/-- The length as it is known, or worked out. -/
def length (t : Table) : Nat := t.knownLength.getD t.measure

/-- The table after its length was asked for. -/
def withKnownLength (t : Table) : Table := { t with knownLength := some t.length }

/-- Stores a value behind the last one. -/
def append (t : Table) (value : Value) : Table :=
  let i := t.length
  let v := value.scalar
  let t := t.withKnownLength
  if i < t.slots.size then t.setSlot i v
  else if i = t.slots.size && !v.isNil then (t.grow (i + 1)).setSlot i v
  else t.setEntry (.ofNat (i + t.origin)) (.number (.ofNat (i + t.origin))) v

/-- The values of a list, from the origin on. -/
def ofList (values : List Value) : Table := values.foldl append empty

/-- Stores the next positional entry of a constructor; a nil takes its position too. -/
def appendPositional (t : Table) (value : Value) : Except Cause Table :=
  let key := t.cursor + t.origin
  { t with cursor := t.cursor + 1 }.set (.number (.ofNat key)) value

/-- Stores positional entries one after the other. -/
def appendPositionals (t : Table) : List Value → Except Cause Table
  | [] => .ok t
  | v :: rest => do (← t.appendPositional v).appendPositionals rest

/-! ## Traversal -/

/-- The slots that hold a value, from index `start` on, as key and value. -/
def slotPairsFrom (origin start : Nat) : List Value → List (Value × Value)
  | [] => []
  | v :: rest =>
    let more := slotPairsFrom origin (start + 1) rest
    if v.isNil then more else (.number (.ofNat (start + origin)), v) :: more

def slotPairs (t : Table) : List (Value × Value) := slotPairsFrom t.origin 0 t.slots.toList

/-- The entries that hold a value, as key and value. -/
def livePairs (entries : List Entry) : List (Value × Value) :=
  (entries.filter fun e => !e.value.isNil).map fun e => (e.name, e.value)

/-- Every key with a value: slots first, then entries in their order. -/
def pairs (t : Table) : List (Value × Value) := t.slotPairs ++ livePairs t.entries

def keys (t : Table) : List Value := t.pairs.map Prod.fst

def values (t : Table) : List Value := t.pairs.map Prod.snd

/-- The number of keys with a value. -/
def count (t : Table) : Nat :=
  (t.slots.toList.filter fun v => !v.isNil).length +
  (t.entries.filter fun e => !e.value.isNil).length

/-- The entries behind the one of a key. -/
def entriesAfter (entries : List Entry) (key : Key) : Option (List Entry) :=
  match entries.dropWhile fun e => e.key != key with
  | [] => none
  | _ :: rest => some rest

/-- The key and value that come after a key in a traversal, and the first ones after nil. -/
def next (t : Table) (key : Value) : Except Cause (Option (Value × Value)) :=
  if key.isNil then .ok t.pairs.head?
  else
    match t.ownSlot key with
    | some i =>
      .ok (slotPairsFrom t.origin (i + 1) (t.slots.toList.drop (i + 1)) ++
        livePairs t.entries).head?
    | none =>
      match Key.ofValue key with
      | .ok k =>
        match entriesAfter t.entries k with
        | some rest => .ok (livePairs rest).head?
        | none => .error .strayKey
      | .error _ => .error .strayKey

end Table

end ScriptMachine
