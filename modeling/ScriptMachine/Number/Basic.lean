/-!
# Numbers

Double-precision numbers, kept as their 64 bits, so that a not-a-number keeps the sign and the
payload it was given.

* Order and equality read the bits: two numbers that are numbers compare by `orderKey`.
* `ofRatio` rounds a quotient of naturals to the nearest double, a half going to the even one.
* Sums, products and quotients are the machine's own.
-/

namespace ScriptMachine

/-- A double, by its bit pattern. -/
structure Number where
  bits : UInt64
deriving DecidableEq, Inhabited, Repr

namespace Number

/-- What the sign bit weighs, `2 ^ 63`. -/
abbrev signWeight : Nat := 0x8000000000000000

/-- What the lowest bit of the exponent weighs, `2 ^ 52`. The leading bit of a normal significand
weighs the same. -/
abbrev exponentWeight : Nat := 0x10000000000000

/-- The bits without the sign. -/
def magnitude (n : Number) : Nat := n.bits.toNat % signWeight

/-- The sign bit is set. -/
def isNegative (n : Number) : Bool := signWeight ≤ n.bits.toNat

/-- The magnitude of infinity: the largest exponent and no fraction. -/
def infinite : Nat := 0x7ff * exponentWeight

def isNaN (n : Number) : Bool := infinite < n.magnitude

def isInfinite (n : Number) : Bool := n.magnitude == infinite

def isFinite (n : Number) : Bool := n.magnitude < infinite

def isZero (n : Number) : Bool := n.magnitude == 0

/-- The number with this sign and these magnitude bits. -/
def ofMagnitude (negative : Bool) (magnitude : Nat) : Number :=
  ⟨((if negative then signWeight else 0) + magnitude % signWeight).toUInt64⟩

def zero : Number := ofMagnitude false 0

def infinity : Number := ofMagnitude false infinite

/-- The quiet not-a-number with a clear sign. -/
def nan : Number := ofMagnitude false (infinite + exponentWeight / 2)

/-- The number with the other sign. -/
def neg (n : Number) : Number := ofMagnitude (!n.isNegative) n.magnitude

/-! ## Exact values -/

/-- The significand of a finite number: its value is `significand * 2 ^ exponent`. -/
def significand (n : Number) : Nat :=
  if n.magnitude < exponentWeight then n.magnitude
  else n.magnitude % exponentWeight + exponentWeight

def exponent (n : Number) : Int :=
  (max (n.magnitude / exponentWeight) 1 : Nat) - 1075

/-- The absolute value of a finite number as a fraction. -/
def fraction (n : Number) : Nat × Nat :=
  if n.exponent < 0 then (n.significand, 1 <<< (-n.exponent).toNat)
  else (n.significand <<< n.exponent.toNat, 1)

/-- The absolute value of a finite number, without its fractional part. -/
def wholePart (n : Number) : Nat := n.fraction.1 / n.fraction.2

/-- A finite number with nothing behind the point. -/
def isIntegral (n : Number) : Bool := n.isFinite && n.fraction.1 % n.fraction.2 == 0

/-- The integer a finite integral number stands for. -/
def integer? (n : Number) : Option Int :=
  if n.isIntegral then some (if n.isNegative then -(n.wholePart : Int) else n.wholePart) else none

/-- The integer that an integral number stands for, if it fits in 64 signed bits. -/
def asInteger (n : Number) : Option Int :=
  n.integer?.filter fun i => -(signWeight : Int) ≤ i && i < (signWeight : Int)

/-- The integer next to a number on the side of zero, held within the given bounds; zero for a
not-a-number. -/
def clampInteger (low high : Int) (n : Number) : Int :=
  if n.isNaN then 0
  else if n.isInfinite then (if n.isNegative then low else high)
  else
    let whole : Int := if n.isNegative then -(n.wholePart : Int) else n.wholePart
    max low (min high whole)

/-! ## Rounding -/

/-- The natural nearest to `num / den`; a half goes to the even neighbour. -/
def roundDiv (num den : Nat) : Nat :=
  let q := num / den
  let r := num % den
  if 2 * r < den then q
  else if den < 2 * r then q + 1
  else if q % 2 == 0 then q else q + 1

/-- The exponent `k` with `2 ^ k ≤ num / den < 2 ^ (k + 1)`, for positive operands. -/
def ratioLog2 (num den : Nat) : Int :=
  let guess : Int := (num.log2 : Int) - den.log2
  let below := if guess < 0 then num <<< (-guess).toNat < den else num < den <<< guess.toNat
  if below then guess - 1 else guess

/-- The magnitude bits of the double nearest to `num / den`. -/
def roundRatio (num den : Nat) : Nat :=
  if num = 0 then 0
  else
    let e := max (ratioLog2 num den - 52) (-1074)
    let m := if e < 0 then roundDiv (num <<< (-e).toNat) den else roundDiv num (den <<< e.toNat)
    min infinite ((e + 1074).toNat * exponentWeight + m)

/-- The double nearest to `num / den`. -/
def ofRatio (negative : Bool) (num den : Nat) : Number :=
  ofMagnitude negative (roundRatio num den)

def ofNat (n : Nat) : Number := ofRatio false n 1

def ofInt (i : Int) : Number := ofRatio (i < 0) i.natAbs 1

instance : OfNat Number n := ⟨ofNat n⟩

/-- Two to a natural power; infinity from `2 ^ 1024` on. -/
def twoPow (k : Nat) : Number :=
  if k < 1024 then ofMagnitude false ((k + 1023) * exponentWeight) else infinity

/-- The largest integral number not above `n`. -/
def floor (n : Number) : Number :=
  if !n.isFinite || n.isIntegral then n
  else if n.isNegative then ofRatio true (n.wholePart + 1) 1
  else ofRatio false n.wholePart 1

/-! ## Order -/

/-- The place of a number on the line of doubles; both zeros stand at the origin. -/
def orderKey (n : Number) : Int := if n.isNegative then -(n.magnitude : Int) else n.magnitude

/-- Equality of numbers: both zeros are equal and a not-a-number equals nothing. -/
def equals (a b : Number) : Bool := !a.isNaN && !b.isNaN && a.orderKey == b.orderKey

def lt (a b : Number) : Bool := !a.isNaN && !b.isNaN && a.orderKey < b.orderKey

def le (a b : Number) : Bool := !a.isNaN && !b.isNaN && a.orderKey ≤ b.orderKey

/-! ## Arithmetic -/

def toFloat (n : Number) : Float := Float.ofBits n.bits

def ofFloat (x : Float) : Number := ⟨x.toBits⟩

def add (a b : Number) : Number := ofFloat (a.toFloat + b.toFloat)

def sub (a b : Number) : Number := ofFloat (a.toFloat - b.toFloat)

def mul (a b : Number) : Number := ofFloat (a.toFloat * b.toFloat)

def div (a b : Number) : Number := ofFloat (a.toFloat / b.toFloat)

/-- Remainder of the floored quotient: its sign follows the divisor. -/
def mod (a b : Number) : Number := a.sub ((a.div b).floor.mul b)

def pow (a b : Number) : Number := ofFloat (Float.pow a.toFloat b.toFloat)

end Number

/-- A numeric progression `first..last..step`. -/
structure Range where
  first : Number
  last : Number
  step : Number
deriving DecidableEq, Inhabited, Repr

namespace Range

/-- The value after `current`, or the first one. A progression with step zero has no values. -/
def next (r : Range) (current : Option Number) : Option Number :=
  let candidate := match current with
    | none => r.first
    | some v => v.add r.step
  let inside := if Number.zero.lt r.step then candidate.le r.last else r.last.le candidate
  if inside && !r.step.equals .zero then some candidate else none

/-- The values from the one after `current` on, at most `limit` of them. -/
def sequence (r : Range) : Nat → Option Number → List Number
  | 0, _ => []
  | limit + 1, current =>
    match r.next current with
    | some n => n :: r.sequence limit (some n)
    | none => []

/-- Equal bounds and equal step, as numbers. -/
def equals (a b : Range) : Bool :=
  a.first.equals b.first && a.last.equals b.last && a.step.equals b.step

end Range

end ScriptMachine
