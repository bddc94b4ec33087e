/-!
# The chunk format

What writing and reading a serialized function share: an eight-byte mark, a version byte, and then
one function descriptor, with the functions nested in it inside.

    name | flags | annotations | symbol pool | locals | upvalues | symbols
         | nested functions | strings | numbers | code | source spans

Lengths and indexes take four bytes, the least significant first.
-/

namespace ScriptMachine.Chunk

/-- The bytes every chunk starts with. -/
def magic : List UInt8 := [0x1b, 0x46, 0x53, 0x43, 0x52, 0x49, 0x50, 0x54]

def version : UInt8 := 1

/-- Functions and annotation tables are nested at most this deep. -/
def maxNesting : Nat := 200

/-- A number of `count` bytes, the least significant first. -/
def littleEndian : Nat → Nat → List UInt8
  | 0, _ => []
  | count + 1, n => n.toUInt8 :: littleEndian count (n / 256)

/-- The number that bytes stand for, the least significant first. -/
def ofLittleEndian : List UInt8 → Nat
  | [] => 0
  | b :: rest => b.toNat + 256 * ofLittleEndian rest

theorem ofLittleEndian_littleEndian (count n : Nat) (h : n < Nat.pow 256 count) :
    ofLittleEndian (littleEndian count n) = n := by
  induction count generalizing n with
  | zero => simp [littleEndian, ofLittleEndian, Nat.lt_one_iff.1 h]
  | succ count ih =>
    have split : Nat.pow 256 (count + 1) = Nat.pow 256 count * 256 := rfl
    have low : n.toUInt8.toNat = n % 256 := by simp [Nat.toUInt8]
    rw [littleEndian, ofLittleEndian, ih (n / 256) (by omega), low]
    omega

theorem length_littleEndian (count n : Nat) : (littleEndian count n).length = count := by
  induction count generalizing n with
  | zero => rfl
  | succ count ih => simp [littleEndian, ih]

end ScriptMachine.Chunk
