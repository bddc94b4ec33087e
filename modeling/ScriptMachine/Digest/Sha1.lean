import ScriptMachine.Text.Quoted

/-!
# SHA-1

The 160-bit digest of a string of bytes.
-/

namespace ScriptMachine.Sha1

/-- The five words of the digest in progress. -/
structure Digest where
  a : UInt32
  b : UInt32
  c : UInt32
  d : UInt32
  e : UInt32
deriving DecidableEq, Repr

def initial : Digest := ⟨0x67452301, 0xefcdab89, 0x98badcfe, 0x10325476, 0xc3d2e1f0⟩

def rotateLeft (x : UInt32) (n : UInt32) : UInt32 := (x <<< n) ||| (x >>> (32 - n))

/-- The most significant byte of a number of `count` bytes first. -/
def bigEndian (n : Nat) : Nat → List UInt8
  | 0 => []
  | count + 1 => (n >>> (8 * count)).toUInt8 :: bigEndian n count

/-- The message, a one bit, zeros up to a multiple of 64 bytes, and the length in bits. -/
def pad (bytes : List UInt8) : List UInt8 :=
  let zeros := (55 + 64 - bytes.length % 64) % 64
  bytes ++ 0x80 :: (List.replicate zeros 0 ++ bigEndian (8 * bytes.length) 8)

/-- Words of four bytes each. -/
def words : List UInt8 → List UInt32
  | a :: b :: c :: d :: rest =>
    ((a.toUInt32 <<< 24) ||| (b.toUInt32 <<< 16) ||| (c.toUInt32 <<< 8) ||| d.toUInt32) ::
      words rest
  | _ => []

/-- Extends the schedule of a block by one word, the newest first. -/
def extend (schedule : List UInt32) : List UInt32 :=
  let word (i : Nat) := schedule.getD i 0
  rotateLeft (word 2 ^^^ word 7 ^^^ word 13 ^^^ word 15) 1 :: schedule

/-- The eighty words of a block. -/
def schedule (block : List UInt32) : List UInt32 := (Nat.repeat extend 64 block.reverse).reverse

/-- One of the eighty rounds. -/
def round (s : Digest) (t : Nat) (word : UInt32) : Digest :=
  let (f, k) :=
    if t < 20 then ((s.b &&& s.c) ||| (~~~s.b &&& s.d), 0x5a827999)
    else if t < 40 then (s.b ^^^ s.c ^^^ s.d, 0x6ed9eba1)
    else if t < 60 then ((s.b &&& s.c) ||| (s.b &&& s.d) ||| (s.c &&& s.d), 0x8f1bbcdc)
    else (s.b ^^^ s.c ^^^ s.d, 0xca62c1d6)
  ⟨rotateLeft s.a 5 + f + s.e + k + word, s.a, rotateLeft s.b 30, s.c, s.d⟩

/-- Mixes one block of sixteen words into the digest. -/
def absorb (s : Digest) (block : List UInt32) : Digest :=
  let r := (schedule block).zipIdx.foldl (fun s (word, t) => round s t word) s
  ⟨s.a + r.a, s.b + r.b, s.c + r.c, s.d + r.d, s.e + r.e⟩

/-- Mixes in `count` blocks. -/
def absorbBlocks (s : Digest) (ws : List UInt32) : Nat → Digest
  | 0 => s
  | count + 1 => absorbBlocks (absorb s (ws.take 16)) (ws.drop 16) count

def digest (bytes : List UInt8) : Digest :=
  let ws := words (pad bytes)
  absorbBlocks initial ws (ws.length / 16)

/-- The digest in forty hexadecimal digits. -/
def hex (bytes : List UInt8) : String :=
  let s := digest bytes
  Text.encodeHex ([s.a, s.b, s.c, s.d, s.e].flatMap fun w => bigEndian w.toNat 4)

end ScriptMachine.Sha1
