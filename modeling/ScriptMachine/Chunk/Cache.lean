import ScriptMachine.Chunk.Reader
import ScriptMachine.Chunk.Writer
import ScriptMachine.Digest.Sha1

/-!
# Fingerprints, caches and transfers

* The fingerprint of a function is the digest of its bytes.
* A cache keeps the bytes of functions under their fingerprints. Copies of a cache share what it
  keeps.
* A transfer writes a function into a buffer of limited size, or reads one from a source that may
  break.
-/

namespace ScriptMachine.Chunk

/-- The digest of a function's bytes. -/
def fingerprint (h : Heap) (p : Proto) : Except Fault String := do return Sha1.hex (← dump h p)

/-- The bytes of functions by fingerprint. -/
abbrev Store := List (String × List UInt8)

namespace Store

def find? (s : Store) (key : String) : Option (List UInt8) := s.lookup key

/-- Keeps bytes under their fingerprint, in place of those it had there. -/
def insert (s : Store) (key : String) (bytes : List UInt8) : Store :=
  (key, bytes) :: s.filter fun entry => entry.1 != key

end Store

/-- Caches by number, each with the number of the store it shares. -/
structure Caches where
  stores : Array Store := #[[]]
  handles : Array Nat := #[0]

namespace Caches

/-- The store behind a cache. -/
def storeOf (c : Caches) (cache : Nat) : Nat := c.handles[cache]?.getD 0

def store (c : Caches) (cache : Nat) : Store := c.stores[c.storeOf cache]?.getD []

/-- Keeps a function and answers its fingerprint. -/
def insert (c : Caches) (cache : Nat) (h : Heap) (p : Proto) : Except Fault (String × Caches) := do
  let bytes ← dump h p
  let key := Sha1.hex bytes
  return (key, { c with stores := c.stores.modify (c.storeOf cache) fun s => s.insert key bytes })

/-- The function kept under a fingerprint, read anew. -/
def get (c : Caches) (cache : Nat) (h : Heap) (key : String) :
    Except Fault (Option (Proto × Heap)) :=
  match (c.store cache).find? key with
  | none => .ok none
  | some bytes => (undump h bytes).map some

def clear (c : Caches) (cache : Nat) : Caches :=
  { c with stores := c.stores.modify (c.storeOf cache) fun _ => [] }

/-- Adds a cache that shares the store of another. -/
def share (c : Caches) (cache : Nat) : Caches :=
  { c with handles := c.handles.push (c.storeOf cache) }

/-- Adds a cache with a store of its own. -/
def fresh (c : Caches) : Caches :=
  { stores := c.stores.push [], handles := c.handles.push c.stores.size }

end Caches

/-- Writes a function into a buffer of `room` bytes. -/
def writeInto (room : Nat) (h : Heap) (p : Proto) : Except Fault (List UInt8) := do
  let bytes ← dump h p
  if bytes.length ≤ room then return bytes else throw (.transfer .bufferFull)

/-- Reads a function from a source that ends, or breaks, behind these bytes. -/
def readFrom (breaks : Bool) (h : Heap) (bytes : List UInt8) : Except Fault (Proto × Heap) :=
  if breaks then .error (.transfer .readerBroke) else undump h bytes

end ScriptMachine.Chunk
