import ScriptMachine.Chunk.Cache
import ScriptMachine.Proto.Listing

/-!
# Round trips

A function beside the copy that is read back from its bytes.
-/

namespace ScriptMachine.Chunk

/-- What is known of a function and of its copy. -/
structure RoundTrip where
  listing : String
  bytes : List UInt8
  fingerprint : String
  sameListing : Bool
  sameProto : Bool
  sameBytes : Bool
deriving Inhabited

/-- The function is written as these bytes. -/
def writes (h : Heap) (p : Proto) (bytes : List UInt8) : Bool :=
  match dump h p with
  | .ok written => written == bytes
  | .error _ => false

/-- Writes a function, reads it back and compares. -/
def roundTrip (h : Heap) (names : FunctionNames) (p : Proto) : Except Fault RoundTrip := do
  let bytes ← dump h p
  let (copy, heap) ← undump h bytes
  let fingerprint ← fingerprint h p
  let listing := p.listing h names
  return {
    listing, bytes, fingerprint
    sameListing := copy.listing heap names == listing
    sameProto := Proto.equals heap copy p
    sameBytes := writes heap copy bytes }

end ScriptMachine.Chunk
